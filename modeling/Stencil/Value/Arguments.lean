import Stencil.Value.Rendering

/-!
# Maps from arguments

An ordered map can be given as a flat list in which names and values alternate.
-/

namespace Stencil

namespace Value

def wholeTypeName : WholeKind → Text
  | .int8 => "int8"
  | .int16 => "int16"
  | .int32 => "int32"
  | .int64 => "int64"
  | .word => "uint"
  | .word8 => "uint8"
  | .word16 => "uint16"
  | .word32 => "uint32"
  | .word64 => "uint64"

def typeName : Value → Text
  | .null => nullMark
  | .missing => "scope.missingValue"
  | .bool _ => "bool"
  | .text _ => "string"
  | .name type _ | .titled type _ _ | .label type _ | .table type _ | .record type _ => type
  | .time _ => "time.Time"
  | .int _ => "int"
  | .whole kind _ => wholeTypeName kind
  | .real p _ => if p = Number.single then "float32" else "float64"
  | .complex _ _ => "complex128"
  | .list .texts _ => "[]string"
  | .list .ints _ => "[]int"
  | .list .fixed items => "[" ++ Text.ofNat items.length ++ "]interface \x7b\x7d"
  | .list _ _ => "[]interface \x7b\x7d"
  | .map _ | .absent .map => "*scope.Map"
  | .dict .any _ => "map[string]interface \x7b\x7d"
  | .dict .ints _ => "map[string]int"
  | .dict (.named type) _ | .dict (.titled type _) _ => "map[" ++ type ++ "]interface \x7b\x7d"
  | .ref target | .nowhere target => "*" ++ target.typeName
  | .absent .overlay | .overlay _ _ => "*scope.Overlay"
  | .absent .function | .func => "func()"

end Value

/-- Why a list of arguments is no map. -/
inductive ArgumentError where
  | odd
  | notText (key : Value)

def ArgumentError.message : ArgumentError → Text
  | .odd => "scope.MapOf: odd number of arguments"
  | .notText key =>
    "scope.MapOf: key " ++ key.shown ++ " is a " ++ key.typeName ++ ", not a string"

namespace Entries

/-- The pairs of an alternating list of names and values of even length. -/
def pairs : List Value → Except ArgumentError (List (Text × Value))
  | .text name :: value :: rest => (pairs rest).map fun es => (name, value) :: es
  | key :: _ :: _ => .error (.notText key)
  | _ => .ok []

/-- The map of an alternating list of names and values. -/
def ofArguments (arguments : List Value) : Except ArgumentError (Entries Value) :=
  if arguments.length % 2 ≠ 0 then .error .odd else (pairs arguments).map ofList

end Entries

end Stencil
