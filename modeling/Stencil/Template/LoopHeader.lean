import Stencil.Text.Class

/-!
# Loop headers

The parameter of a loop is `value of path` or `value, key of path`; a parameter without the word `of`
is the path alone.
-/

namespace Stencil.Template

/-- The names and the collection of a loop, as they are written. -/
structure LoopHeader where
  value : Text
  key : Option Text
  collection : Text
deriving DecidableEq, Repr

namespace LoopHeader

def isSpace (g : Glyph) : Bool := CharClass.isHeaderSpace g.char

/-- The name at the front of a header, and what follows it. -/
def takeName? : List Glyph → Option (Text × List Glyph)
  | [] => none
  | g :: gs =>
    if CharClass.isVariableStart g.char then
      some (Text.ofGlyphs (g :: gs.takeWhile fun h => CharClass.isVariable h.char),
        gs.dropWhile fun h => CharClass.isVariable h.char)
    else none

/-- The key after a comma, and what follows it. -/
def takeKey? (gs : List Glyph) : Option (Text × List Glyph) :=
  match gs.dropWhile isSpace with
  | ⟨',', _⟩ :: rest => takeName? (rest.dropWhile isSpace)
  | _ => none

def startsBlank : List Glyph → Bool
  | [] => false
  | g :: _ => isSpace g

/-- What follows the word `of`, without the blanks around it. -/
def takeCollection? (gs : List Glyph) : Option Text :=
  match gs.dropWhile isSpace with
  | ⟨'o', _⟩ :: ⟨'f', _⟩ :: rest =>
    if startsBlank gs && startsBlank rest then
      some (Text.ofGlyphs ((rest.dropWhile isSpace).reverse.dropWhile isSpace).reverse)
    else none
  | _ => none

def parse? (t : Text) : Option LoopHeader :=
  match takeName? (t.glyphs.dropWhile isSpace) with
  | none => none
  | some (value, rest) =>
    match takeKey? rest with
    | some (key, rest) => (takeCollection? rest).map fun c => ⟨value, some key, c⟩
    | none => (takeCollection? rest).map fun c => ⟨value, none, c⟩

/-- Whether the word `of` stands among characters; `fresh` says whether a word may begin here. -/
def hasOfAfter (fresh : Bool) : List Char → Bool
  | [] => false
  | c :: cs =>
    (fresh && c == 'o' &&
      match cs with
      | ['f'] => true
      | 'f' :: d :: _ => CharClass.isHeaderSpace d
      | _ => false)
    || hasOfAfter (CharClass.isHeaderSpace c) cs

def hasOf (t : Text) : Bool := hasOfAfter true t.chars

end LoopHeader

end Stencil.Template
