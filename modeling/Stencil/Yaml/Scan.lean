import Stencil.Yaml.Folding
import Stencil.Yaml.Names

/-!
# Reading tokens

A key of a mapping is recognised only by the `:` after it, so a token that may begin one is held back
until that is decided; then the tokens that open a mapping are put in front of it. Tokens are handed
on in order, each when two more have been read after it and it can no longer begin a key. If the
document cannot be read on, the tokens held back are lost.
-/

namespace Stencil.Yaml

/-- A place where a key may have begun. -/
structure KeyStart where
  /-- Whether a key must have begun here. -/
  required : Bool
  /-- How many tokens come before it. -/
  number : Nat
  mark : Mark
  /-- Whether the token here is held back until it is decided. -/
  held : Bool
deriving Repr

/-- What is known about keys in one flow collection, or outside of all. -/
structure KeyLevel where
  /-- Where a key may have begun. -/
  start : Option KeyStart
  /-- The number of the token at which a key may last have begun, or that of the token that opened the
  collection. -/
  last : Nat
deriving Repr

def KeyLevel.drop (l : KeyLevel) : KeyLevel := { l with start := none }

/-- A level in which the token of a number is not held back. -/
def KeyLevel.letGo (number : Nat) (l : KeyLevel) : KeyLevel :=
  { l with start := l.start.map fun k => if k.number = number then { k with held := false } else k }

structure Scanner where
  cursor : Cursor
  /-- The tokens so far, last first. -/
  tokens : List Token
  count : Nat
  /-- How many tokens have been handed on. -/
  released : Nat
  /-- How many flow collections are open. -/
  flowDepth : Nat
  /-- The column of the innermost block collection, `-1` outside of all. -/
  indent : Int
  /-- The columns of the block collections around it, innermost first. -/
  indents : List Int
  /-- Whether a key may begin here. -/
  keyAllowed : Bool
  /-- The levels of keys, innermost flow collection first. -/
  keys : List KeyLevel

namespace Scanner

/-- A reader that has read nothing but the start of the stream. -/
def ofInput (i : Input) : Scanner where
  cursor := .ofInput i
  tokens := [⟨.streamStart, 0⟩]
  count := 1
  released := 0
  flowDepth := 0
  indent := -1
  indents := []
  keyAllowed := true
  keys := [⟨none, 0⟩]

/-- The deepest nesting that is read. -/
def maxDepth : Nat := 10000

def push (s : Scanner) (l : Lexeme) (line : Nat) : Scanner :=
  { s with tokens := ⟨l, line⟩ :: s.tokens, count := s.count + 1 }

/-- One more token, in front of the token of a number unless that has been handed on. -/
def insert (s : Scanner) (number : Nat) (l : Lexeme) (line : Nat) : Scanner :=
  let later := if number < s.released then 0 else s.count - number
  { s with
    tokens := s.tokens.take later ++ ⟨l, line⟩ :: s.tokens.drop later
    count := s.count + 1 }

def indicator (s : Scanner) (l : Lexeme) (n : Nat) : Scanner :=
  { s.push l s.cursor.mark.line with cursor := s.cursor.skip n }

def fault (s : Scanner) (problem : Problem) : Fault :=
  s.cursor.fault s.cursor.mark.line problem

/-! ### Keys -/

/-- Whether a key that began at a place would be too long by now: it must end on its line and within
1024 characters. -/
def isStale (s : Scanner) (k : KeyStart) : Bool :=
  k.mark.line < s.cursor.mark.line || k.mark.index + 1024 < s.cursor.mark.index

/-- The problem that no key ended where one must have begun. -/
def keyFault (s : Scanner) (k : KeyStart) : Fault := s.cursor.fault k.mark.line .simpleKey

/-- Gives up the innermost place where a key may have begun. -/
def dropKey (s : Scanner) : Except Fault Scanner :=
  match s.keys with
  | ⟨some k, last⟩ :: rest =>
    if k.required then .error (s.keyFault k) else .ok { s with keys := ⟨none, last⟩ :: rest }
  | _ => .ok s

/-- Notes that a key may begin here. -/
def noteKey (s : Scanner) : Except Fault Scanner :=
  if !s.keyAllowed then .ok s
  else
    let k : KeyStart :=
      ⟨s.flowDepth == 0 && s.indent == (s.cursor.mark.column : Int), s.count, s.cursor.mark, true⟩
    s.dropKey.map fun s => { s with keys := ⟨some k, k.number⟩ :: s.keys.drop 1 }

/-! ### Indentation -/

/-- Opens a block collection at a column, if that is further right than the one around it; `number`
is the token it is put in front of. -/
def openBlock (s : Scanner) (column : Nat) (number : Option Nat) (l : Lexeme) (line : Nat) :
    Except Fault Scanner :=
  if s.flowDepth > 0 || (column : Int) ≤ s.indent then .ok s
  else if maxDepth ≤ s.indents.length then .error (s.fault .depth)
  else
    let s := { s with indents := s.indent :: s.indents, indent := column }
    .ok (match number with
      | some n => s.insert n l line
      | none => s.push l line)

/-- Closes the block collections right of a column; `fuel` bounds their number. -/
def closeBlocks (column : Int) (line : Nat) : (fuel : Nat) → Scanner → Scanner
  | 0, s => s
  | fuel + 1, s =>
    if s.indent ≤ column then s
    else
      let outer := s.indents.headD (-1)
      closeBlocks column line fuel
        { s.push .blockEnd line with indent := outer, indents := s.indents.drop 1 }

/-- Closes the block collections right of a column, unless a flow collection is open. -/
def closeTo (s : Scanner) (column : Int) (line : Nat) : Scanner :=
  if s.flowDepth > 0 then s else closeBlocks column line (s.indents.length + 1) s

/-! ### Blanks between tokens -/

/-- Passes over blanks, comments and line ends; `fuel` bounds the number of lines. A tab is a blank
only where no key may begin. -/
def skipBlanks : (fuel : Nat) → Scanner → Scanner
  | 0, s => s
  | fuel + 1, s =>
    let c := s.cursor
    let c := if c.mark.index == 0 && c.peek.toNat == 0xFEFF then c.skip 1 else c
    let tabs := s.flowDepth > 0 || !s.keyAllowed
    let c := c.dropWhile fun ch => ch == ' ' || (tabs && ch == '\t')
    let c := if c.peek == '#' then c.skipComments (c.rest.length + 1) else c
    if isBreak c.peek then
      skipBlanks fuel { s with cursor := c.skipBreak, keyAllowed := s.keyAllowed || s.flowDepth == 0 }
    else { s with cursor := c }

/-! ### Tokens -/

/-- Closes every block collection before a directive or a document indicator. -/
def leaveBlocks (s : Scanner) : Except Fault Scanner :=
  (s.closeTo (-1) s.cursor.mark.line).dropKey.map fun s => { s with keyAllowed := false }

/-- The end of the stream, which stands at the start of a line. -/
def endStream (s : Scanner) : Except Fault Scanner :=
  let m := s.cursor.mark
  let line := if m.column = 0 then m.line else m.line + 1
  let s := { s with cursor := { s.cursor with mark := ⟨m.index, line, 0⟩ } }
  s.leaveBlocks.map fun s => s.push .streamEnd line

def fetchDirective (s : Scanner) : Except Fault Scanner := do
  let s ← s.leaveBlocks
  let line := s.cursor.mark.line
  let (lexeme, c) ← takeDirective line s.cursor
  return { s.push lexeme line with cursor := c }

/-- The mark of a document's start or end. -/
def fetchDocumentMark (s : Scanner) (l : Lexeme) : Except Fault Scanner :=
  s.leaveBlocks.map fun s => s.indicator l 3

def openFlow (s : Scanner) (l : Lexeme) : Except Fault Scanner := do
  let s ← s.noteKey
  if maxDepth ≤ s.flowDepth then throw (s.fault .depth)
  let s := { s with
    keys := ⟨none, s.count⟩ :: s.keys, flowDepth := s.flowDepth + 1, keyAllowed := true }
  return s.indicator l 1

/-- The levels of keys after the innermost flow collection. A collection in which no key can have begun
lets go of the token that opened it. -/
def outerKeys : List KeyLevel → List KeyLevel
  | [] => []
  | inner :: outer => outer.map (KeyLevel.letGo inner.last)

def closeFlow (s : Scanner) (l : Lexeme) : Except Fault Scanner := do
  let s ← s.dropKey
  let keys := if s.flowDepth > 0 then outerKeys s.keys else s.keys
  return { s with keys := keys, flowDepth := s.flowDepth - 1, keyAllowed := false }.indicator l 1

/-- A comma. -/
def fetchFlowEntry (s : Scanner) : Except Fault Scanner :=
  s.dropKey.map fun s => { s with keyAllowed := true }.indicator .flowEntry 1

/-- A dash. -/
def fetchBlockEntry (s : Scanner) : Except Fault Scanner := do
  if s.flowDepth == 0 && !s.keyAllowed then throw (s.fault .blockEntryContext)
  let m := s.cursor.mark
  let s ← s.openBlock m.column none .blockSequenceStart m.line
  let s ← s.dropKey
  return { s with keyAllowed := true }.indicator .blockEntry 1

/-- A question mark. -/
def fetchKey (s : Scanner) : Except Fault Scanner := do
  if s.flowDepth == 0 && !s.keyAllowed then throw (s.fault .keyContext)
  let m := s.cursor.mark
  let s ← s.openBlock m.column none .blockMappingStart m.line
  let s ← s.dropKey
  return { s with keyAllowed := s.flowDepth == 0 }.indicator .key 1

/-- A colon after a key that began at a place. -/
def fetchSimpleValue (s : Scanner) (k : KeyStart) : Except Fault Scanner := do
  let s := s.insert k.number .key k.mark.line
  let s ← s.openBlock k.mark.column (some k.number) .blockMappingStart k.mark.line
  return { s with keys := s.keys.modifyHead .drop, keyAllowed := false }.indicator .value 1

/-- A colon after no key, or after one that was announced. -/
def fetchComplexValue (s : Scanner) : Except Fault Scanner := do
  if s.flowDepth == 0 && !s.keyAllowed then throw (s.fault .valueContext)
  let m := s.cursor.mark
  let s ← s.openBlock m.column none .blockMappingStart m.line
  return { s with keyAllowed := s.flowDepth == 0 }.indicator .value 1

/-- A colon. -/
def fetchValue (s : Scanner) : Except Fault Scanner :=
  match s.keys with
  | ⟨some k, last⟩ :: rest =>
    if !s.isStale k then s.fetchSimpleValue k
    else if k.required then .error (s.keyFault k)
    else { s with keys := ⟨none, last⟩ :: rest }.fetchComplexValue
  | _ => s.fetchComplexValue

/-- A token that may begin a key, read by `take`. -/
def fetchContent (s : Scanner) (take : Nat → Cursor → Except Fault (Lexeme × Cursor)) :
    Except Fault Scanner := do
  let s ← s.noteKey
  let line := s.cursor.mark.line
  let (lexeme, c) ← take line s.cursor
  return { s.push lexeme line with cursor := c, keyAllowed := false }

def fetchBlockScalar (s : Scanner) (literal : Bool) : Except Fault Scanner := do
  let s ← s.dropKey
  let line := s.cursor.mark.line
  let (text, c) ← takeBlock literal s.indent line (s.cursor.skip 1)
  return { s.push (.scalar text .block) line with cursor := c, keyAllowed := true }

def fetchQuoted (s : Scanner) (single : Bool) : Except Fault Scanner :=
  s.fetchContent fun line c =>
    (takeQuoted single line (c.rest.length + 1) [] (c.skip 1)).map fun found =>
      (.scalar found.1 .quoted, found.2)

/-- A plain scalar. If a line has ended behind it, a key may begin after it. -/
def fetchPlain (s : Scanner) : Except Fault Scanner := do
  let s ← s.noteKey
  let line := s.cursor.mark.line
  let found ←
    takePlain (s.flowDepth > 0) (s.indent + 1) line (s.cursor.rest.length + 1) [] .empty s.cursor
  return { s.push (.scalar found.text .plain) line with cursor := found.cursor,
                                                         keyAllowed := found.broken }

/-- Whether a character begins a plain scalar wherever it stands. -/
def startsPlain (c : Char) : Bool :=
  !(isSeparator c || c == '-' || c == '?' || c == ':' || c == ',' || c == '[' || c == ']' ||
    c == '\x7b' || c == '\x7d' || c == '#' || c == '&' || c == '*' || c == '!' || c == '|' ||
    c == '>' || c == '\'' || c == '"' || c == '%' || c == '@' || c == '`')

/-- The token at the cursor, within a document. -/
def fetchInner (s : Scanner) : Except Fault Scanner :=
  let c := s.cursor.peek
  let next := s.cursor.ahead 1
  let flow := s.flowDepth > 0
  if c == '[' then s.openFlow .flowSequenceStart
  else if c == '\x7b' then s.openFlow .flowMappingStart
  else if c == ']' then s.closeFlow .flowSequenceEnd
  else if c == '\x7d' then s.closeFlow .flowMappingEnd
  else if c == ',' then s.fetchFlowEntry
  else if c == '-' && isSeparator next then s.fetchBlockEntry
  else if c == '?' && (flow || isSeparator next) then s.fetchKey
  else if c == ':' && (flow || isSeparator next) then s.fetchValue
  else if c == '*' then
    s.fetchContent fun line c => (takeName line (c.skip 1)).map fun f => (.alias f.1, f.2)
  else if c == '&' then
    s.fetchContent fun line c => (takeName line (c.skip 1)).map fun f => (.anchor f.1, f.2)
  else if c == '!' then s.fetchContent takeTag
  else if c == '|' && !flow then s.fetchBlockScalar true
  else if c == '>' && !flow then s.fetchBlockScalar false
  else if c == '\'' then s.fetchQuoted true
  else if c == '"' then s.fetchQuoted false
  else if startsPlain c || (c == '-' && !isBlank next) ||
      (!flow && (c == '?' || c == ':') && !isSeparator next) then s.fetchPlain
  else .error (s.fault .tokenStart)

/-- A comment passed over after a token, except after a dash. -/
def skipComment (s : Scanner) : Scanner :=
  match s.tokens with
  | ⟨.blockEntry, _⟩ :: _ => s
  | _ => { s with cursor := s.cursor.skipLineComment }

def fetch (s : Scanner) : Except Fault Scanner := do
  let line := s.cursor.mark.line
  let _ ← s.cursor.require 1
  let s := s.skipBlanks (s.cursor.rest.length + 1)
  let s := s.closeTo s.cursor.mark.column line
  let c ← s.cursor.require 4
  if c.atEnd then s.endStream
  else if c.mark.column == 0 && c.peek == '%' then s.fetchDirective
  else if c.atMark '-' then s.fetchDocumentMark .documentStart
  else if c.atMark '.' then s.fetchDocumentMark .documentEnd
  else
    let s ← s.fetchInner
    return s.skipComment

/-! ### The stream -/

/-- Whether a key may have begun at the token of a number, and that token is held back. -/
def holds (number : Nat) (l : KeyLevel) : Bool := l.start.any fun k => k.held && k.number == number

/-- Whether the next token to be handed on may still begin a key, and the reader after finding out. -/
def headIsPending (s : Scanner) : Except Fault (Bool × Scanner) :=
  match (s.keys.find? (holds s.released)).bind KeyLevel.start with
  | some k =>
    if !s.isStale k then .ok (true, s)
    else if k.required then .error (s.keyFault k)
    else
      .ok (false, { s with keys := s.keys.map fun l => if holds s.released l then l.drop else l })
  | none => .ok (false, s)

/-- Hands on the tokens that can be handed on; `fuel` bounds their number. -/
def release : (fuel : Nat) → Scanner → Except (Fault × Nat) Scanner
  | 0, s => .ok s
  | fuel + 1, s =>
    if s.count < s.released + 3 then .ok s
    else
      match s.headIsPending with
      | .error e => .error (e, s.released)
      | .ok (true, s) => .ok s
      | .ok (false, s) => release fuel { s with released := s.released + 1 }

def ended (s : Scanner) : Bool :=
  match s.tokens with
  | ⟨.streamEnd, _⟩ :: _ => true
  | _ => false

end Scanner

/-- The tokens of a document, and why there are no more, if it is not because they have ended. -/
structure Stream where
  tokens : List Token
  stop : Option Fault
deriving Repr

namespace Stream

/-- The first `n` tokens of a reader, and why there are no more. -/
def cut (s : Scanner) (n : Nat) (stop : Fault) : Stream :=
  ⟨s.tokens.reverse.take n, some stop⟩

/-- Reads tokens to the end of the stream; `fuel` bounds their number. -/
def readFrom : (fuel : Nat) → Scanner → Stream
  | 0, s => ⟨s.tokens.reverse, none⟩
  | fuel + 1, s =>
    if s.ended then ⟨s.tokens.reverse, none⟩
    else
      match s.release (s.count + 1) with
      | .error (stop, n) => cut s n stop
      | .ok s =>
        match s.fetch with
        | .error stop => cut s s.released stop
        | .ok s => readFrom fuel s

def ofText (t : Text) : Stream :=
  let input := Input.ofText t
  readFrom (input.chars.length + 4) (.ofInput input)

end Stream

end Stencil.Yaml
