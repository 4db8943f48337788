import Stencil.Text.Basic

/-!
# Patterns of file names

In a pattern `*` stands for any run of bytes without a slash, `?` for one character that is not a slash,
`[…]` for one character of some ranges, `[^…]` for one that is in none of them, and a backslash takes the
next byte as it is. A pattern is read chunk by chunk while it is matched, a chunk being what stands
between two stars; after a star the first place where its chunk fits is taken and never reconsidered.
When a match has failed the rest of the pattern is still read, so that a malformed one is always found.
-/

namespace Stencil.Files

/-- The complaint about a pattern that cannot be read. -/
inductive PatternFault where
  | malformed
deriving DecidableEq, Repr

def PatternFault.message : PatternFault → Text
  | .malformed => "syntax error in pattern"

namespace Pattern

/-! ### Reading a pattern -/

/-- How many bytes there are before the next star, which has no meaning within brackets. -/
def chunkLength (bracketed : Bool) : Text → Nat
  | [] => 0
  | 0x5C :: _ :: rest => 2 + chunkLength bracketed rest
  | b :: rest =>
    if b = 0x2A && !bracketed then 0
    else if b = 0x5B then 1 + chunkLength true rest
    else if b = 0x5D then 1 + chunkLength false rest
    else 1 + chunkLength bracketed rest

/-- The next part of a pattern: whether it begins with a star, its chunk, and the pattern after it. -/
structure Part where
  star : Bool
  chunk : Text
  rest : Text
deriving Repr

/-- The next part of a pattern; several stars are as good as one. -/
def nextPart (pattern : Text) : Part :=
  let body := pattern.dropWhile (· = 0x2A)
  let n := chunkLength false body
  ⟨pattern.head? = some 0x2A, body.take n, body.drop n⟩

inductive Element where
  | any
  | literal (b : UInt8)
  | oneOf (negated : Bool) (ranges : List (Char × Char))
deriving Repr

/-- A character within brackets, which a backslash may precede. Something must follow it. -/
def takeMember (t : Text) : Except PatternFault (Char × Text) :=
  let escaped := t.head? = some 0x5C
  match (if escaped then t.drop 1 else t) with
  | [] => .error .malformed
  | b :: rest =>
    let g := Glyph.first b rest
    let after := (b :: rest).drop g.bytes.length
    if !escaped && (b = 0x2D || b = 0x5D) then .error .malformed
    else if g == Glyph.stray b || after.isEmpty then .error .malformed
    else .ok (g.char, after)

/-- A range within brackets, or one character. -/
def takeRange (t : Text) : Except PatternFault ((Char × Char) × Text) :=
  match takeMember t with
  | .error e => .error e
  | .ok (low, 0x2D :: rest) =>
    match takeMember rest with
    | .error e => .error e
    | .ok (high, rest) => .ok ((low, high), rest)
  | .ok (low, rest) => .ok ((low, low), rest)

/-- The ranges up to the closing bracket, at least one, after those in `ranges`; `fuel` bounds their
number. -/
def takeRanges : (fuel : Nat) → (ranges : List (Char × Char)) → Text →
    Except PatternFault (List (Char × Char) × Text)
  | 0, _, _ => .error .malformed
  | fuel + 1, ranges, t =>
    if t.head? = some 0x5D && !ranges.isEmpty then .ok (ranges, t.drop 1)
    else
      match takeRange t with
      | .error e => .error e
      | .ok (range, rest) => takeRanges fuel (ranges ++ [range]) rest

/-- The first element of a chunk that is not empty, and the chunk after it. -/
def takeElement (b : UInt8) (rest : Text) : Except PatternFault (Element × Text) :=
  if b = 0x5B then
    let negated := rest.head? = some 0x5E
    let body := if negated then rest.drop 1 else rest
    (takeRanges (body.length + 1) [] body).map fun found => (.oneOf negated found.1, found.2)
  else if b = 0x3F then .ok (.any, rest)
  else if b = 0x5C then
    match rest with
    | [] => .error .malformed
    | c :: rest => .ok (.literal c, rest)
  else .ok (.literal b, rest)

/-! ### Matching a name -/

/-- What is left of a name after an element, if the name begins with it. -/
def Element.strip (e : Element) : Text → Option Text
  | [] => none
  | b :: rest =>
    let g := Glyph.first b rest
    let after := (b :: rest).drop g.bytes.length
    match e with
    | .any => if b = 0x2F then none else some after
    | .literal c => if b = c then some rest else none
    | .oneOf negated ranges =>
      if (ranges.any fun r => r.1 ≤ g.char && g.char ≤ r.2) = negated then none else some after

/-- What is left of a name after a chunk, if the name begins with it; a name that has failed already is
`none`. `fuel` bounds the number of elements. -/
def stripChunk : (fuel : Nat) → (chunk : Text) → Option Text → Except PatternFault (Option Text)
  | 0, _, name => .ok name
  | _ + 1, [], name => .ok name
  | fuel + 1, b :: rest, name =>
    match takeElement b rest with
    | .error e => .error e
    | .ok (element, rest) => stripChunk fuel rest (name.bind element.strip)

/-- What is left of a name after a chunk. If nothing may be left, something left is a failure. -/
def fit (chunk : Text) (last : Bool) (name : Text) : Except PatternFault (Option Text) :=
  (stripChunk chunk.length chunk (some name)).map fun left =>
    left.filter fun t => !last || t.isEmpty

/-- What is left of a name after the first place beyond its start where a chunk fits, with no slash
before that place. -/
def fitLater (chunk : Text) (last : Bool) : Text → Except PatternFault (Option Text)
  | [] => .ok none
  | b :: rest =>
    if b = 0x2F then .ok none
    else
      match fit chunk last rest with
      | .error e => .error e
      | .ok (some left) => .ok (some left)
      | .ok none => fitLater chunk last rest

/-- Reads a pattern to its end; `fuel` bounds the number of its parts. -/
def check : (fuel : Nat) → (pattern : Text) → Except PatternFault Unit
  | 0, _ => .ok ()
  | fuel + 1, pattern =>
    if pattern.isEmpty then .ok ()
    else
      let part := nextPart pattern
      match stripChunk part.chunk.length part.chunk none with
      | .error e => .error e
      | .ok _ => check fuel part.rest

/-- Whether a pattern matches a whole name; `fuel` bounds the number of its parts. -/
def matchParts : (fuel : Nat) → (pattern name : Text) → Except PatternFault Bool
  | 0, _, name => .ok name.isEmpty
  | fuel + 1, pattern, name =>
    if pattern.isEmpty then .ok name.isEmpty
    else
      let part := nextPart pattern
      if part.star && part.chunk.isEmpty then .ok (!name.contains 0x2F)
      else
        let last := part.rest.isEmpty
        match fit part.chunk last name with
        | .error e => .error e
        | .ok (some left) => matchParts fuel part.rest left
        | .ok none =>
          match (if part.star then fitLater part.chunk last name else .ok none) with
          | .error e => .error e
          | .ok (some left) => matchParts fuel part.rest left
          | .ok none => (check fuel part.rest).map fun _ => false

end Pattern

def matchPattern (pattern name : Text) : Except PatternFault Bool :=
  Pattern.matchParts pattern.length pattern name

end Stencil.Files
