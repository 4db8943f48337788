import Stencil.Yaml.Token

/-!
# Scalars as they are written

The text of plain, quoted and block scalars. In the first two a single line end counts as a space and
further ones as themselves; in a block scalar that is so only if it is folded.
-/

namespace Stencil.Yaml

/-! ### Gaps between words -/

/-- What stands between two words of a scalar. -/
structure Gap where
  /-- The blanks, as long as no line has ended. -/
  blanks : Text
  /-- The first line end. -/
  first : Text
  /-- The line ends after it. -/
  more : Text
  /-- Whether a line has ended. -/
  broken : Bool
deriving Repr

namespace Gap

def empty : Gap := ⟨[], [], [], false⟩

/-- A line end that leaves no trace. -/
def escaped : Gap := ⟨[], [], [], true⟩

/-- A gap as it is part of a text. -/
def toText (g : Gap) : Text :=
  if !g.broken then g.blanks
  else if g.first.head? = some 0x0A then (if g.more.isEmpty then [0x20] else g.more)
  else g.first ++ g.more

/-- Reads on in a gap; `fuel` bounds its length. After a line end a tab left of column `indent` is a
fault. -/
def take (start : Nat) (indent : Int) : (fuel : Nat) → Gap → Cursor → Except Fault (Gap × Cursor)
  | 0, g, c => .ok (g, c)
  | fuel + 1, g, c =>
    if isBlank c.peek then
      if g.broken then
        if c.peek == '\t' && (c.mark.column : Int) < indent then
          .error (c.fault start .plainScalarTab)
        else take start indent fuel g (c.skip 1)
      else take start indent fuel { g with blanks := g.blanks ++ Text.ofChar c.peek } (c.skip 1)
    else if isBreak c.peek then
      let found := c.takeBreak
      if g.broken then take start indent fuel { g with more := g.more ++ found.1 } found.2
      else take start indent fuel ⟨[], found.1, [], true⟩ found.2
    else .ok (g, c)

end Gap

/-! ### Plain scalars -/

/-- Whether a character ends a plain scalar in a flow collection. -/
def isFlowIndicator (c : Char) : Bool :=
  c == ',' || c == '?' || c == '[' || c == ']' || c == '\x7b' || c == '\x7d'

/-- The word of a plain scalar in front of some characters. -/
def plainWord (flow : Bool) : List Char → List Char
  | [] => []
  | c :: rest =>
    if isSeparator c || (c == ':' && isSeparator (rest.headD nul)) || (flow && isFlowIndicator c)
    then []
    else c :: plainWord flow rest

/-- A plain scalar: its text, the place after it, and whether a line has ended behind its text. -/
structure PlainScalar where
  text : Text
  cursor : Cursor
  broken : Bool

/-- Reads on in a plain scalar that began on line `start`, with `text` and then `gap` read already;
`fuel` bounds the number of words. -/
def takePlain (flow : Bool) (indent : Int) (start : Nat) :
    (fuel : Nat) → Text → Gap → Cursor → Except Fault PlainScalar
  | 0, text, gap, c => .ok ⟨text, c, gap.broken⟩
  | fuel + 1, text, gap, c =>
    if c.atIndicator || c.peek == '#' then .ok ⟨text, c, gap.broken⟩
    else
      let word := plainWord flow c.rest
      let after := c.skip word.length
      let text := if word.isEmpty then text else text ++ gap.toText ++ Text.ofChars word
      let gap := if word.isEmpty then gap else Gap.empty
      if !(isBlank after.peek || isBreak after.peek) then .ok ⟨text, after, gap.broken⟩
      else
        match gap.take start indent after.rest.length after with
        | .error e => .error e
        | .ok (gap, c) =>
          if !flow && (c.mark.column : Int) < indent then .ok ⟨text, c, gap.broken⟩
          else takePlain flow indent start fuel text gap c

/-! ### Quoted scalars -/

/-- The characters that a backslash and one character stand for. -/
def escapes : List (Char × Nat) :=
  [('0', 0), ('a', 7), ('b', 8), ('t', 9), ('\t', 9), ('n', 10), ('v', 11), ('f', 12), ('r', 13),
    ('e', 27), (' ', 32), ('"', 34), ('\'', 39), ('\\', 92), ('N', 0x85), ('_', 0xA0),
    ('L', 0x2028), ('P', 0x2029)]

/-- How many digits follow an escape for a code point. -/
def escapeLength? (c : Char) : Option Nat :=
  if c == 'x' then some 2 else if c == 'u' then some 4 else if c == 'U' then some 8 else none

def hexNumber? (n : Nat) : List Char → Option Nat
  | [] => some n
  | c :: rest =>
    match hexDigit? c with
    | some d => hexNumber? (n * 16 + d) rest
    | none => none

/-- Reads an escape that is not a line end. -/
def takeEscape (start : Nat) (c : Cursor) : Except Fault (Text × Cursor) :=
  match escapes.find? fun e => e.1 == c.ahead 1 with
  | some e => .ok (Text.ofChar (Char.ofNat e.2), c.skip 2)
  | none =>
    match escapeLength? (c.ahead 1) with
    | none => .error (c.fault start .escapeCharacter)
    | some n =>
      let c := c.skip 2
      let digits := c.rest.take n
      match hexNumber? 0 digits, decide (digits.length = n) with
      | some code, true =>
        if (0xD800 ≤ code && code ≤ 0xDFFF) || 0x10FFFF < code then
          .error (c.fault start .escapeCode)
        else .ok (Text.ofChar (Char.ofNat code), c.skip n)
      | _, _ => .error (c.fault start .escapeDigits)

/-- Reads a run of characters of a quoted scalar up to a blank, a line end or the closing quote;
`fuel` bounds their number. The flag says that it ended with an escaped line end. -/
def takeQuotedRun (single : Bool) (start : Nat) :
    (fuel : Nat) → Text → Cursor → Except Fault (Text × Cursor × Bool)
  | 0, text, c => .ok (text, c, false)
  | fuel + 1, text, c =>
    let ch := c.peek
    if isSeparator ch then .ok (text, c, false)
    else if single then
      if ch == '\'' then
        if c.ahead 1 == '\'' then takeQuotedRun single start fuel (text ++ [0x27]) (c.skip 2)
        else .ok (text, c, false)
      else takeQuotedRun single start fuel (text ++ Text.ofChar ch) (c.skip 1)
    else if ch == '"' then .ok (text, c, false)
    else if ch == '\\' then
      if isBreak (c.ahead 1) then .ok (text, (c.skip 1).skipBreak, true)
      else
        match takeEscape start c with
        | .error e => .error e
        | .ok (more, c) => takeQuotedRun single start fuel (text ++ more) c
    else takeQuotedRun single start fuel (text ++ Text.ofChar ch) (c.skip 1)

/-- Reads on in a quoted scalar after its opening quote; `fuel` bounds the number of runs. -/
def takeQuoted (single : Bool) (start : Nat) :
    (fuel : Nat) → Text → Cursor → Except Fault (Text × Cursor)
  | 0, _, c => .error (c.endFault start .endOfStream)
  | fuel + 1, text, c =>
    if c.atIndicator then .error (c.fault start .documentIndicator)
    else if c.atEnd then .error (c.endFault start .endOfStream)
    else
      match takeQuotedRun single start (c.rest.length + 1) text c with
      | .error e => .error e
      | .ok (text, c, escaped) =>
        if c.peek == (if single then '\'' else '"') then .ok (text, c.skip 1)
        else
          match (if escaped then Gap.escaped else Gap.empty).take start (-1) c.rest.length c with
          | .error e => .error e
          | .ok (gap, c) => takeQuoted single start fuel (text ++ gap.toText) c

/-! ### Block scalars -/

/-- What is done with the line ends after the last line. -/
inductive Chomping where
  | strip
  | clip
  | keep
deriving DecidableEq, Repr

/-- The indicators after the mark of a block scalar. -/
structure BlockHeader where
  chomping : Chomping
  /-- The additional indentation, if it is given. -/
  increment : Option Nat
deriving Repr

/-- The chomping indicator in front, if there is one. -/
def chompingAt? (c : Cursor) : Option Chomping :=
  if c.peek == '+' then some .keep else if c.peek == '-' then some .strip else none

/-- The indentation indicator in front, if there is one. -/
def incrementAt (start : Nat) (c : Cursor) : Except Fault (Option Nat) :=
  if c.peek == '0' then .error (c.fault start .zeroIndent)
  else if '1' ≤ c.peek && c.peek ≤ '9' then .ok (some (c.peek.toNat - 48))
  else .ok none

/-- Reads the indicators of a block scalar, which come in any order. -/
def takeBlockHeader (start : Nat) (c : Cursor) : Except Fault (BlockHeader × Cursor) :=
  match chompingAt? c with
  | some chomping =>
    let c := c.skip 1
    (incrementAt start c).map fun n =>
      (⟨chomping, n⟩, if n.isSome then c.skip 1 else c)
  | none =>
    match incrementAt start c with
    | .error e => .error e
    | .ok none => .ok (⟨.clip, none⟩, c)
    | .ok (some n) =>
      let c := c.skip 1
      match chompingAt? c with
      | some chomping => .ok (⟨chomping, some n⟩, c.skip 1)
      | none => .ok (⟨.clip, some n⟩, c)

/-- Line ends and indentation in front of a line of a block scalar. -/
structure Indentation where
  /-- The line ends. -/
  breaks : Text
  /-- The greatest column at which a line began. -/
  widest : Nat
  cursor : Cursor

/-- Reads line ends and the spaces left of column `indent`, or all spaces if that is not known yet;
`fuel` bounds the number of lines. -/
def takeIndentation (indent : Option Nat) (start : Nat) :
    (fuel : Nat) → (breaks : Text) → (widest : Nat) → Cursor → Except Fault Indentation
  | 0, breaks, widest, c => .ok ⟨breaks, widest, c⟩
  | fuel + 1, breaks, widest, c =>
    let spaces := (c.rest.takeWhile (· == ' ')).length
    let c := c.skip ((indent.map fun n => min spaces (n - c.mark.column)).getD spaces)
    let widest := max widest c.mark.column
    let inside := (indent.map fun n => decide (c.mark.column < n)).getD true
    if inside && c.peek == '\t' then .error (c.fault start .blockScalarTab)
    else if !isBreak c.peek then .ok ⟨breaks, widest, c⟩
    else takeIndentation indent start fuel (breaks ++ c.takeBreak.1) widest c.skipBreak

/-- A block scalar under construction. -/
structure BlockText where
  text : Text
  /-- The line end after the last line. -/
  first : Text
  /-- The line ends after that. -/
  more : Text
  /-- Whether the last line began with a blank. -/
  indented : Bool

/-- The text up to the start of a line; `blank` says whether the line begins with a blank. -/
def BlockText.joined (literal : Bool) (b : BlockText) (blank : Bool) : Text :=
  if !literal && !b.indented && !blank && b.first.head? = some 0x0A then
    b.text ++ (if b.more.isEmpty then [0x20] else []) ++ b.more
  else b.text ++ b.first ++ b.more

/-- Reads the lines of a block scalar that begin at column `indent`; `fuel` bounds their number. -/
def takeBlockLines (literal : Bool) (indent start : Nat) :
    (fuel : Nat) → BlockText → Cursor → Except Fault (BlockText × Cursor)
  | 0, b, c => .ok (b, c)
  | fuel + 1, b, c =>
    if c.mark.column ≠ indent || c.atEnd then .ok (b, c)
    else
      let blank := isBlank c.peek
      let line := c.takeLine
      let text := b.joined literal blank ++ Text.ofChars line.1
      let lineEnd := line.2.takeBreak
      match takeIndentation (some indent) start (lineEnd.2.rest.length + 1) [] 0 lineEnd.2 with
      | .error e => .error e
      | .ok found => takeBlockLines literal indent start fuel ⟨text, lineEnd.1, found.breaks, blank⟩
          found.cursor

/-- Reads a block scalar after its mark; `parent` is the column of the collection around it. -/
def takeBlock (literal : Bool) (parent : Int) (start : Nat) (c : Cursor) :
    Except Fault (Text × Cursor) := do
  let (header, c) ← takeBlockHeader start c
  let c := c.dropWhile isBlank
  let c := if c.peek == '#' then c.takeLine.2 else c
  if !isLineEnd c.peek then throw (c.fault start .blockScalarHeader)
  let c := c.skipBreak
  let given : Option Nat := header.increment.map fun n => (max parent 0).toNat + n
  let lead ← takeIndentation given start (c.rest.length + 1) [] 0 c
  let indent := given.getD (max (max lead.widest (parent + 1).toNat) 1)
  let (b, c) ←
    takeBlockLines literal indent start (lead.cursor.rest.length + 1) ⟨[], [], lead.breaks, false⟩
      lead.cursor
  match header.chomping with
  | .strip => return (b.text, c)
  | .clip => return (b.text ++ b.first, c)
  | .keep => return (b.text ++ b.first ++ b.more, c)

end Stencil.Yaml
