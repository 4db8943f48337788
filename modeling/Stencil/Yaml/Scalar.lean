import Stencil.Number.Whole
import Stencil.Text.Base64
import Stencil.Yaml.Fault
import Stencil.Yaml.Timestamp

/-!
# Scalars and their tags

A plain scalar means what it looks like: a number, a truth value, a timestamp, nothing, or else text.
A tag says what a scalar has to mean.
-/

namespace Stencil.Yaml

namespace Tag

/-- The beginning of the tags that have a short form. -/
def common : Text := "tag:yaml.org,2002:"

/-- A tag in its short form. -/
def shorten (t : Text) : Text :=
  if t.startsWith common then "!!" ++ t.drop common.length else t

def str : Text := "!!str"

def null : Text := "!!null"

def bool : Text := "!!bool"

def int : Text := "!!int"

def float : Text := "!!float"

def timestamp : Text := "!!timestamp"

def binary : Text := "!!binary"

/-- The key of a mapping whose entries are taken over. -/
def merge : Text := "!!merge"

def seq : Text := "!!seq"

def map : Text := "!!map"

/-- Whether a tag says what a scalar has to mean. Under any other tag it is text. -/
def isCore (t : Text) : Bool :=
  t == str || t == null || t == bool || t == int || t == float || t == timestamp

end Tag

inductive Scalar where
  | null
  | bool (b : Bool)
  | int (n : Int)
  /-- A number of sixty-four bits that is too large for a signed one. -/
  | word (n : Nat)
  | float (x : Number.Binary)
  | time (t : Timestamp)
  | text (t : Text)

namespace Scalar

def tag : Scalar → Text
  | .null => Tag.null
  | .bool _ => Tag.bool
  | .int _ | .word _ => Tag.int
  | .float _ => Tag.float
  | .time _ => Tag.timestamp
  | .text _ => Tag.str

/-- The scalars that are written as words. -/
def words : List (String × Scalar) :=
  [("true", .bool true), ("True", .bool true), ("TRUE", .bool true),
    ("false", .bool false), ("False", .bool false), ("FALSE", .bool false),
    ("", .null), ("~", .null), ("null", .null), ("Null", .null), ("NULL", .null),
    (".nan", .float .nan), (".NaN", .float .nan), (".NAN", .float .nan),
    (".inf", .float (.infinite false)), (".Inf", .float (.infinite false)),
    (".INF", .float (.infinite false)), ("+.inf", .float (.infinite false)),
    ("+.Inf", .float (.infinite false)), ("+.INF", .float (.infinite false)),
    ("-.inf", .float (.infinite true)), ("-.Inf", .float (.infinite true)),
    ("-.INF", .float (.infinite true))]

def ofWord? (t : Text) : Option Scalar :=
  (words.find? fun w => Text.ofString w.1 == t).map Prod.snd

def ofReal? (t : Text) : Option Scalar :=
  match Number.parseBinary Number.double t with
  | .ok x => some (.float x)
  | .error _ => none

/-- Whether a text is digits with at most one point, and an optional sign and exponent. -/
def looksReal (t : Text) : Bool := (Number.parseDecimal? (Number.takeSign t).2).isSome

/-- An integer behind the mark of a base that has a sign of its own. -/
def ofMarked? (t : Text) : Option Scalar :=
  let found :=
    if t.startsWith "0b" then Number.parseBasedInt? 2 (t.drop 2)
    else if t.startsWith "-0b" then Number.parseBasedInt? 2 (0x2D :: t.drop 3)
    else if t.startsWith "0o" then Number.parseBasedInt? 8 (t.drop 2)
    else if t.startsWith "-0o" then Number.parseBasedInt? 8 (0x2D :: t.drop 3)
    else none
  found.map .int

def ofNumber? (t : Text) : Option Scalar :=
  match Number.parseMarkedInt? t with
  | some n => some (.int n)
  | none =>
    match (Number.parseMarked? t).filter (· < 0x10000000000000000) with
    | some n => some (.word n)
    | none => ((if looksReal t then ofReal? t else none) <|> ofMarked? t)

/-- What a scalar without a tag, or with the tag of a timestamp, means if it begins like a number. -/
def ofDigits (timed : Bool) (t : Text) : Scalar :=
  let moment := if timed then Timestamp.ofText? t else none
  match moment with
  | some moment => .time moment
  | none => (ofNumber? (t.filter fun b => b ≠ 0x5F)).getD (.text t)

/-- What a scalar looks like. A timestamp is looked for only if `timed` holds. -/
def ofPlain (timed : Bool) (t : Text) : Scalar :=
  match ofWord? t with
  | some s => s
  | none =>
    match t with
    | 0x2E :: _ => (ofReal? t).getD (.text t)
    | b :: _ =>
      if Number.isDigitByte b || b = 0x2B || b = 0x2D then ofDigits timed t else .text t
    | [] => .text t

/-- What a scalar means under a tag; without one it means what it looks like. -/
def resolve (tag value : Text) : Except Fault Scalar :=
  if tag.isEmpty then .ok (ofPlain true value)
  else if tag == Tag.str || !Tag.isCore tag then .ok (.text value)
  else
    let s := ofPlain (tag == Tag.timestamp) value
    if s.tag == tag then .ok s
    else
      match s with
      | .int n =>
        if tag == Tag.float then
          .ok (.float (Number.Binary.ofDecimal Number.double (n < 0) n.natAbs 0))
        else .error (.plain (.scalarTag s.tag value tag))
      | _ => .error (.plain (.scalarTag s.tag value tag))

/-- What a scalar of a node means. The bytes of a binary one are text. -/
def decode (tag value : Text) : Except Fault Scalar :=
  if tag == Tag.binary then
    match Text.ofBase64? value with
    | some bytes => .ok (.text bytes)
    | none => .error (.plain .base64)
  else resolve tag value

end Scalar

end Stencil.Yaml
