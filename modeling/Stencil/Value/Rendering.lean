import Stencil.Number.Notation
import Stencil.Value.Basic

/-!
# Values as text

A value that stands alone is shown plainly: nothing at all for null and missing values. Inside another
value these have a mark of their own, so that a list shows how many items it has.
-/

namespace Stencil

/-- What is shown in place of a key. -/
def DictKind.title : DictKind → Text → Text
  | .titled _ title => title
  | _ => id

namespace Value

/-- The mark for null inside another value. -/
def nullMark : Text := "<nil>"

/-- The mark for a missing value inside another value. -/
def missingMark : Text := "<missing>"

/-- The mark for a thing that has no text. -/
def thingMark : Text := "0xc000000000"

/-- Parts in brackets, with a blank between them. -/
def bracketed (parts : List Text) : Text := "[" ++ Text.join " " parts ++ "]"

/-- Parts in braces, with a blank between them. -/
def braced (parts : List Text) : Text := "\x7b" ++ Text.join " " parts ++ "\x7d"

/-- Entries of an ordered map, each a name and the text of its value. -/
def mapText (entries : List (Text × Text)) : Text :=
  "\x7b" ++ Text.join ", " (entries.map fun e => e.1 ++ ": " ++ e.2) ++ "\x7d"

/-- Entries of a dictionary in the given order. -/
def dictText (entries : List (Text × Text)) : Text :=
  "map" ++ bracketed (entries.map fun e => e.1 ++ ":" ++ e.2)

/-- Entries in the bytewise order of their names. -/
def byName {α : Type} (entries : List (Text × α)) : List (Text × α) :=
  entries.mergeSort fun a b => a.1.le b.1

/-- Where the kind of a key stands among the kinds of keys. -/
def keyRank : Value → Nat
  | .null => 0
  | .bool _ => 1
  | .int _ => 2
  | .whole _ _ => 3
  | .real _ _ => 4
  | .text _ => 5
  | .name _ _ => 6
  | .titled _ _ _ => 7
  | _ => 8

/-- Whether one key of a table does not have to stand after another in its text. Numbers are compared by
size and texts bytewise; of other keys of one kind none comes before another. -/
def keyLe : Value → Value → Bool
  | .bool a, .bool b => !a || b
  | .int m, .int n | .whole _ m, .whole _ n => m ≤ n
  | .real _ x, .real _ y => x.le y
  | .text s, .text t | .name _ s, .name _ t | .titled _ s _, .titled _ t _ => s.le t
  | v, w => v.keyRank ≤ w.keyRank

/-- Entries in the order of their keys. -/
def byKey {α : Type} (entries : List (Value × α)) : List (Value × α) :=
  entries.mergeSort fun a b => a.1.keyLe b.1

mutual

/-- The text of a value inside another value. -/
def innerText : Value → Text
  | .null => nullMark
  | .missing => missingMark
  | .bool b => if b then "true" else "false"
  | .text t | .name _ t | .titled _ _ t | .label _ t | .time t => t
  | .int n | .whole _ n => Text.ofInt n
  | .real p x => x.toText p
  | .complex re im => "(" ++ re.toText Number.double ++ im.signedText Number.double ++ "i)"
  | .list _ items => bracketed (innerTexts items)
  | .map entries => mapText (entryTexts entries)
  | .dict kind entries =>
    dictText ((byName (entryTexts entries)).map fun e => (kind.title e.1, e.2))
  | .table _ entries => dictText ((byKey (tableTexts entries)).map Prod.snd)
  | .ref target => refText target
  | .absent .map => mapText []
  | .absent _ | .nowhere _ => nullMark
  | .record _ fields => braced (fieldTexts fields)
  | .overlay _ _ | .func => thingMark

/-- The text of a reference inside another value: only what has a text of its own shows it. -/
def refText : Value → Text
  | .missing => missingMark
  | .titled _ _ t | .label _ t | .time t => t
  | _ => thingMark

def innerTexts : List Value → List Text
  | [] => []
  | v :: rest => innerText v :: innerTexts rest

def entryTexts : List (Text × Value) → List (Text × Text)
  | [] => []
  | (n, v) :: rest => (n, innerText v) :: entryTexts rest

/-- The keys of a table, each with its text and the text of its value. -/
def tableTexts : List (Value × Value) → List (Value × Text × Text)
  | [] => []
  | (k, v) :: rest => (k, innerText k, innerText v) :: tableTexts rest

def fieldTexts : List (Reach × Text × Value) → List Text
  | [] => []
  | (_, _, v) :: rest => innerText v :: fieldTexts rest

end

/-- The text of a value that stands alone. -/
def toText : Value → Text
  | .null | .missing => []
  | .ref target =>
    match target with
    | .list _ _ | .dict _ _ | .table _ _ | .record _ _ => "&" ++ target.innerText
    | _ => refText target
  | .overlay parent bindings =>
    "&" ++ braced [parent.innerText, (ofBindings bindings).innerText]
  | v => v.innerText

/-- The text of a value in which null and missing values show their marks. -/
def shown : Value → Text
  | .null => nullMark
  | .missing => missingMark
  | v => v.toText

end Value

end Stencil
