import Stencil.Yaml.Token

/-!
# Anchors, tags and directives

The tokens that say something about a node or a document rather than being part of it.
-/

namespace Stencil.Yaml

/-- A character that may follow the name of an anchor. -/
def endsName (c : Char) : Bool :=
  isSeparator c || c == '?' || c == ':' || c == ',' || c == ']' || c == '\x7d' || c == '%' ||
    c == '@' || c == '`'

/-- Reads the name of an anchor or an alias after its mark. -/
def takeName (start : Nat) (c : Cursor) : Except Fault (Text × Cursor) :=
  let found := c.takeWhile isWordChar
  if found.1.isEmpty || !endsName found.2.peek then .error (found.2.fault start .anchorName)
  else .ok (Text.ofChars found.1, found.2)

/-! ### Tags -/

/-- A character of a tag; `%` begins an escaped octet. -/
def isUriChar (c : Char) : Bool :=
  isWordChar c || c == ';' || c == '/' || c == '?' || c == ':' || c == '@' || c == '&' ||
    c == '=' || c == '+' || c == '$' || c == ',' || c == '.' || c == '!' || c == '~' ||
    c == '*' || c == '\'' || c == '(' || c == ')' || c == '[' || c == ']' || c == '%'

def octetAt? (c : Cursor) : Option UInt8 :=
  if c.peek != '%' then none
  else
    match hexDigit? (c.ahead 1), hexDigit? (c.ahead 2) with
    | some a, some b => some (UInt8.ofNat (a * 16 + b))
    | _, _ => none

/-- Reads the escaped octets that continue a character; `fuel` is how many there are. -/
def takeTrailingOctets (start : Nat) :
    (fuel : Nat) → Text → Cursor → Except Fault (Text × Cursor)
  | 0, text, c => .ok (text, c)
  | fuel + 1, text, c =>
    match octetAt? c with
    | none => .error (c.fault start .uriOctet)
    | some b =>
      if b < 0x80 || 0xC0 ≤ b then .error (c.fault start .uriTrailingOctet)
      else takeTrailingOctets start fuel (text ++ [b]) (c.skip 3)

def takeUriEscape (start : Nat) (text : Text) (c : Cursor) : Except Fault (Text × Cursor) :=
  match octetAt? c with
  | none => .error (c.fault start .uriOctet)
  | some b =>
    let width := Decoded.utf8Width b
    if width = 0 then .error (c.fault start .uriLeadingOctet)
    else takeTrailingOctets start (width - 1) (text ++ [b]) (c.skip 3)

/-- Reads the characters of a tag; `fuel` bounds their number. -/
def takeUriChars (start : Nat) : (fuel : Nat) → Text → Cursor → Except Fault (Text × Cursor)
  | 0, text, c => .ok (text, c)
  | fuel + 1, text, c =>
    if !isUriChar c.peek then .ok (text, c)
    else if c.peek == '%' then
      match takeUriEscape start text c with
      | .error e => .error e
      | .ok (text, c) => takeUriChars start fuel text c
    else takeUriChars start fuel (text ++ Text.ofChar c.peek) (c.skip 1)

/-- Reads a tag of which `head` has been read already. -/
def takeUri (start : Nat) (head : Text) (c : Cursor) : Except Fault (Text × Cursor) :=
  if head.isEmpty && !isUriChar c.peek then .error (c.fault start .tagUri)
  else takeUriChars start (c.rest.length + 1) (head.drop 1) c

/-- Reads the handle of a tag, which begins and normally ends with `!`. -/
def takeHandle (start : Nat) (directive : Bool) (c : Cursor) : Except Fault (Text × Cursor) :=
  if c.peek != '!' then .error (c.fault start .tagHandle)
  else
    let word := (c.skip 1).takeWhile isWordChar
    let handle := "!" ++ Text.ofChars word.1
    if word.2.peek == '!' then .ok (handle ++ "!", word.2.skip 1)
    else if directive && !word.1.isEmpty then .error (word.2.fault start .tagHandle)
    else .ok (handle, word.2)

def takeShortTag (start : Nat) (c : Cursor) : Except Fault (Lexeme × Cursor) :=
  match takeHandle start false c with
  | .error e => .error e
  | .ok (handle, c) =>
    if 1 < handle.length && handle.getLast? = some 0x21 then
      (takeUri start [] c).map fun found => (.tag handle found.1, found.2)
    else
      (takeUri start handle c).map fun found =>
        if found.1.isEmpty then (.tag [] handle, found.2) else (.tag "!" found.1, found.2)

def takeVerbatimTag (start : Nat) (c : Cursor) : Except Fault (Lexeme × Cursor) :=
  match takeUri start [] (c.skip 2) with
  | .error e => .error e
  | .ok (uri, c) =>
    if c.peek != '>' then .error (c.fault start .tagClose) else .ok (.tag [] uri, c.skip 1)

def takeTag (start : Nat) (c : Cursor) : Except Fault (Lexeme × Cursor) :=
  match (if c.ahead 1 == '<' then takeVerbatimTag start c else takeShortTag start c) with
  | .error e => .error e
  | .ok (lexeme, c) =>
    if isSeparator c.peek then .ok (lexeme, c) else .error (c.fault start .tagEnd)

/-! ### Directives -/

def takeVersionNumber (start : Nat) (c : Cursor) : Except Fault (Nat × Cursor) :=
  let digits := c.takeWhile fun ch => '0' ≤ ch && ch ≤ '9'
  if digits.1.isEmpty then .error (c.fault start .versionNumber)
  else if 2 < digits.1.length then .error ((c.skip 2).fault start .longVersion)
  else .ok (digits.1.foldl (fun n ch => n * 10 + (ch.toNat - 48)) 0, digits.2)

def takeVersion (start : Nat) (c : Cursor) : Except Fault (Lexeme × Cursor) := do
  let (major, c) ← takeVersionNumber start (c.dropWhile isBlank)
  if c.peek != '.' then throw (c.fault start .versionDigit)
  let (minor, c) ← takeVersionNumber start (c.skip 1)
  return (.version major minor, c)

/-- Reads the handle and the beginning of tags that it stands for. -/
def takeTagDirective (start : Nat) (c : Cursor) : Except Fault (Lexeme × Cursor) := do
  let (handle, c) ← takeHandle start true (c.dropWhile isBlank)
  if !isBlank c.peek then throw (c.fault start .tagDirectiveSpace)
  let (lead, c) ← takeUri start [] (c.dropWhile isBlank)
  if !isSeparator c.peek then throw (c.fault start .tagDirectiveEnd)
  return (.tagDirective handle lead, c)

/-- Reads the value of a directive. -/
def takeDirectiveValue (start : Nat) (name : Text) (c : Cursor) :
    Except Fault (Lexeme × Cursor) :=
  if name == Text.ofString "YAML" then takeVersion start c
  else if name == Text.ofString "TAG" then takeTagDirective start c
  else .error (c.fault start .unknownDirective)

def takeDirective (start : Nat) (c : Cursor) : Except Fault (Lexeme × Cursor) := do
  let name := (c.skip 1).takeWhile isWordChar
  if name.1.isEmpty then throw (name.2.fault start .directiveName)
  if !isSeparator name.2.peek then throw (name.2.fault start .directiveNameEnd)
  let (lexeme, c) ← takeDirectiveValue start (Text.ofChars name.1) name.2
  let c := c.dropWhile isBlank
  let c := if c.peek == '#' then c.takeLine.2 else c
  if !isLineEnd c.peek then throw (c.fault start .directiveEnd)
  return (lexeme, c.skipBreak)

end Stencil.Yaml
