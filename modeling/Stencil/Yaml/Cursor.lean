import Stencil.Yaml.Input

/-!
# Cursors

A place in a document with the characters after it. Lines and columns are counted from zero. Beyond the
last character NUL is read, which no document contains.
-/

namespace Stencil.Yaml

/-- A place in a document, counted in characters. -/
structure Mark where
  index : Nat
  line : Nat
  column : Nat
deriving DecidableEq, Repr

structure Cursor where
  rest : List Char
  /-- Why there are no characters after these, if it is not the end of the document. -/
  stop : Option Problem
  mark : Mark
  /-- How many lines have ended since the last character that is not a blank. -/
  newlines : Nat

/-! ### Classes of characters -/

/-- What is read beyond the last character. -/
def nul : Char := Char.ofNat 0

/-- A space or a tab. -/
def isBlank (c : Char) : Bool := c == ' ' || c == '\t'

/-- A character that ends a line. -/
def isBreak (c : Char) : Bool :=
  c == '\n' || c == '\r' || c.toNat == 0x85 || c.toNat == 0x2028 || c.toNat == 0x2029

/-- A line end or the end of the document. -/
def isLineEnd (c : Char) : Bool := isBreak c || c == nul

/-- A blank, a line end or the end of the document. -/
def isSeparator (c : Char) : Bool := isBlank c || isLineEnd c

/-- A character of a name. -/
def isWordChar (c : Char) : Bool :=
  ('0' ≤ c && c ≤ '9') || ('A' ≤ c && c ≤ 'Z') || ('a' ≤ c && c ≤ 'z') || c == '_' || c == '-'

def hexDigit? (c : Char) : Option Nat :=
  if '0' ≤ c && c ≤ '9' then some (c.toNat - 48)
  else if 'A' ≤ c && c ≤ 'F' then some (c.toNat - 55)
  else if 'a' ≤ c && c ≤ 'f' then some (c.toNat - 87)
  else none

namespace Cursor

/-- The start of a document. -/
def ofInput (i : Input) : Cursor := ⟨i.chars, i.stop, ⟨0, 0, 0⟩, 0⟩

/-- The character `n` places ahead. -/
def ahead (c : Cursor) (n : Nat) : Char := c.rest.getD n nul

def peek (c : Cursor) : Char := c.ahead 0

def atEnd (c : Cursor) : Bool := c.rest.isEmpty

/-- The place after `n` more characters, none of them a line end. -/
def skip (c : Cursor) (n : Nat) : Cursor :=
  let passed := c.rest.take n
  { c with
    rest := c.rest.drop n
    mark := { c.mark with index := c.mark.index + passed.length
                          column := c.mark.column + passed.length }
    newlines := if passed.all isBlank then c.newlines else 0 }

/-- The characters in front that satisfy `p`, and the place after them. No line end satisfies `p`. -/
def takeWhile (c : Cursor) (p : Char → Bool) : List Char × Cursor :=
  let taken := c.rest.takeWhile p
  (taken, c.skip taken.length)

def dropWhile (c : Cursor) (p : Char → Bool) : Cursor := (c.takeWhile p).2

def nextLine (c : Cursor) (n : Nat) : Cursor :=
  { c with
    rest := c.rest.drop n
    mark := ⟨c.mark.index + n, c.mark.line + 1, 0⟩
    newlines := c.newlines + 1 }

/-- The line end in front as text, and the place after it. Nothing is taken if there is none. -/
def takeBreak (c : Cursor) : Text × Cursor :=
  match c.rest with
  | '\r' :: '\n' :: _ => ([0x0A], c.nextLine 2)
  | ch :: _ =>
    if ch.toNat == 0x2028 || ch.toNat == 0x2029 then (Text.ofChar ch, c.nextLine 1)
    else if isBreak ch then ([0x0A], c.nextLine 1)
    else ([], c)
  | [] => ([], c)

def skipBreak (c : Cursor) : Cursor := c.takeBreak.2

/-- The rest of the line without its end, and the place after it. -/
def takeLine (c : Cursor) : List Char × Cursor := c.takeWhile fun ch => !isLineEnd ch

/-- Whether a mark of three characters stands alone at the start of a line. -/
def atMark (c : Cursor) (m : Char) : Bool :=
  c.mark.column == 0 && c.peek == m && c.ahead 1 == m && c.ahead 2 == m && isSeparator (c.ahead 3)

/-- Whether a document starts or ends here. -/
def atIndicator (c : Cursor) : Bool := c.atMark '-' || c.atMark '.'

/-- A problem with a token that began on line `start`. -/
def fault (c : Cursor) (start : Nat) (problem : Problem) : Fault :=
  Fault.ofToken start c.mark.line problem

/-- A problem that is found at the end of the document. If it has no end, that is the problem. -/
def endFault (c : Cursor) (start : Nat) (problem : Problem) : Fault :=
  match c.stop with
  | some stop => .plain stop
  | none => c.fault start problem

/-- The place, if at least `n` characters can be read after it. -/
def require (c : Cursor) (n : Nat) : Except Fault Cursor :=
  match c.stop with
  | some stop => if c.rest.length < n then .error (.plain stop) else .ok c
  | none => .ok c

/-! ### Comments -/

/-- How far ahead a comment is looked for. -/
def commentReach : Nat := 512

/-- The comment at the end of the line after a token, passed over. -/
def skipLineComment (c : Cursor) : Cursor :=
  let blanks := (c.rest.takeWhile isBlank).length
  if c.newlines > 0 || blanks ≥ commentReach || c.ahead blanks != '#' then c
  else (c.skip blanks).takeLine.2

/-- How many blanks and line ends stand between two lines of a comment, if the second follows. -/
def commentGap? (c : Cursor) : Option Nat :=
  let gap := (c.rest.takeWhile fun ch => isBlank ch || isBreak ch).length
  if 0 < gap && gap < commentReach && c.ahead gap == '#' then some gap else none

/-- The place after a number of blanks and line ends; `fuel` bounds their number. -/
def skipGap : (fuel : Nat) → (index : Nat) → Cursor → Cursor
  | 0, _, c => c
  | fuel + 1, index, c =>
    if index ≤ c.mark.index then c
    else if isBreak c.peek then skipGap fuel index c.skipBreak
    else skipGap fuel index (c.skip 1)

/-- The comment in front, passed over together with the comment lines that follow it; `fuel` bounds
the number of lines. -/
def skipComments : (fuel : Nat) → Cursor → Cursor
  | 0, c => c
  | fuel + 1, c =>
    let c := c.takeLine.2
    match c.commentGap? with
    | some gap => skipComments fuel (skipGap gap (c.mark.index + gap) c)
    | none => c

end Cursor

end Stencil.Yaml
