import Stencil.Text.Basic

/-!
# Source locations and reports

Positions count bytes, lines and columns from zero and are shown from one. A report quotes the source
around a position: at most a hundred bytes and three lines to either side, the line feeds written as
`\n`, with a mark where the position is.
-/

namespace Stencil

/-- A place in a source: bytes before it, line feeds before it, and characters since the last of
those. -/
structure Position where
  offset : Nat
  line : Nat
  column : Nat
deriving DecidableEq, Repr

namespace Position

def origin : Position := ⟨0, 0, 0⟩

/-- The position after one more character. A line feed starts a line; a carriage return takes no
column. -/
def after (p : Position) (g : Glyph) : Position :=
  if g.char == '\n' then ⟨p.offset + g.bytes.length, p.line + 1, 0⟩
  else if g.char == '\r' then ⟨p.offset + g.bytes.length, p.line, p.column⟩
  else ⟨p.offset + g.bytes.length, p.line, p.column + 1⟩

/-- The position in the form `url@line:column`. -/
def toText (url : Text) (p : Position) : Text :=
  url ++ "@" ++ Text.ofNat (p.line + 1) ++ ":" ++ Text.ofNat (p.column + 1)

end Position

structure Span where
  start : Position
  stop : Position
deriving DecidableEq, Repr

/-- The stretch from the start of one span to the end of another. -/
def Span.to (a b : Span) : Span := ⟨a.start, b.stop⟩

structure Source where
  text : Text
  url : Text
deriving DecidableEq, Repr

/-- A position in a source; either may be unknown. -/
structure Location where
  source : Option Source
  position : Option Position

/-- The text before and after a location. -/
structure Excerpt where
  before : Text
  after : Text
deriving DecidableEq, Repr

/-- The longest beginning of a text that has at most `bytes` bytes and fewer than `lines` line
feeds; with `lines` zero their number is not limited. -/
def window (bytes lines : Nat) : Text → Text
  | [] => []
  | b :: rest =>
    match bytes with
    | 0 => []
    | n + 1 =>
      if b = 0x0A then
        if lines = 1 then [] else b :: window n (lines - 1) rest
      else b :: window n lines rest

/-- Where one arrives going back from a place in a text, over at most `bytes` bytes. The line feed that
would be the last of `lines` is stepped over again; with `lines` zero their number is not limited. -/
def startBefore (t : Text) (bytes lines : Nat) (place : Nat) : Nat :=
  match bytes, place with
  | 0, place => place
  | _ + 1, 0 => 0
  | n + 1, start + 1 =>
    if t[start]? = some 0x0A then
      if lines = 1 then start + 1 else startBefore t n (lines - 1) start
    else startBefore t n lines start

namespace Source

def slice (s : Source) (start stop : Nat) : Text := (s.text.take stop).drop start

/-- The source around an offset; an offset beyond the end counts as the end. -/
def excerpt (s : Source) (offset bytes lines : Nat) : Excerpt :=
  let place := min offset s.text.length
  ⟨s.slice (startBefore s.text bytes lines place) place, window bytes lines (s.text.drop place)⟩

end Source

namespace Location

/-- The location as text; without a position only the name of the source is known. -/
def toText (l : Location) : Text :=
  let url := (l.source.map Source.url).getD []
  match l.position with
  | some p => p.toText url
  | none => url

/-- The source around a location, if both its source and its position are known. -/
def excerpt (l : Location) (bytes lines : Nat) : Option Excerpt :=
  match l.source, l.position with
  | some s, some p => some (s.excerpt p.offset bytes lines)
  | _, _ => none

/-- The source text between two locations, empty unless all of it is known. -/
def textTo (start stop : Location) : Text :=
  match start.source, start.position, stop.position with
  | some s, some p, some q => s.slice p.offset q.offset
  | _, _, _ => []

end Location

namespace Excerpt

/-- Line feeds written out as `\n`. -/
def flat (t : Text) : Text := t.replaceByte 0x0A "\\n"

/-- The excerpt on one line, with a mark between its two parts. -/
def toText (e : Excerpt) : Text := "(\"" ++ flat e.before ++ "[ERROR ->]" ++ flat e.after ++ "\")"

end Excerpt

/-- A message followed by the source around the place it is about. -/
def annotate (message : Text) (start : Option Location) : Text :=
  match start.bind (·.excerpt 100 3) with
  | some e => message ++ " " ++ e.toText
  | none => message

/-- A message with its surroundings and its location. -/
def report (message : Text) (start : Option Location) : Text :=
  match start with
  | some l => annotate message start ++ ": " ++ l.toText
  | none => message

end Stencil
