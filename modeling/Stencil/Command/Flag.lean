import Stencil.Text.Quoted

/-!
# Flags

The arguments of a command that begin with a dash. A flag may have one dash or two; its value stands
behind `=` or is the next argument. Flags end at the first argument that is none, or at `--`.
-/

namespace Stencil.Command

inductive Flag where
  | preserve
  | key
  | context
  | engine
  | out
deriving DecidableEq, Repr

def Flag.name : Flag → Text
  | .preserve => "preserve-whitespaces"
  | .key => "key-attr"
  | .context => "context"
  | .engine => "engine"
  | .out => "o"

/-- Whether a flag can stand without a value. -/
def Flag.isSwitch (f : Flag) : Bool := f = .preserve

inductive FlagFault where
  | malformed (argument : Text)
  | unknown (name : Text)
  | helpWanted
  | noValue (name : Text)
  | notBoolean (value name : Text)
deriving DecidableEq, Repr

def FlagFault.message : FlagFault → Text
  | .malformed argument => "bad flag syntax: " ++ argument
  | .unknown name => "flag provided but not defined: -" ++ name
  | .helpWanted => "flag: help requested"
  | .noValue name => "flag needs an argument: -" ++ name
  | .notBoolean value name =>
    "invalid boolean value " ++ value.quoted ++ " for -" ++ name ++ ": parse error"

/-- The values of the flags that are given. -/
structure Flags where
  preserve : Option Bool
  key : Option Text
  context : Option Text
  engine : Option Text
  out : Option Text
deriving DecidableEq, Repr

namespace Flags

def none : Flags := ⟨.none, .none, .none, .none, .none⟩

def yesWords : List String := ["1", "t", "T", "TRUE", "true", "True"]

def noWords : List String := ["0", "f", "F", "FALSE", "false", "False"]

def parseBool? (t : Text) : Option Bool :=
  if yesWords.any fun w => Text.ofString w == t then some true
  else if noWords.any fun w => Text.ofString w == t then some false
  else .none

/-- The flags with a value for one. -/
def set (fs : Flags) (f : Flag) (value : Text) : Except FlagFault Flags :=
  match f with
  | .preserve =>
    match parseBool? value with
    | some b => .ok { fs with preserve := some b }
    | .none => .error (.notBoolean value f.name)
  | .key => .ok { fs with key := some value }
  | .context => .ok { fs with context := some value }
  | .engine => .ok { fs with engine := some value }
  | .out => .ok { fs with out := some value }

end Flags

/-- What an argument looks like. -/
inductive Argument where
  | plain
  /-- The end of the flags. -/
  | stop
  | malformed
  | flag (name : Text) (value : Option Text)
deriving DecidableEq, Repr

/-- The name of a flag and the value behind it; the name has at least one byte. -/
def Argument.ofFlag (t : Text) : Argument :=
  let name := t.take 1 ++ (t.drop 1).takeWhile (· ≠ 0x3D)
  let rest := (t.drop 1).dropWhile (· ≠ 0x3D)
  .flag name (if rest.isEmpty then none else some (rest.drop 1))

def Argument.ofText (t : Text) : Argument :=
  match t with
  | [0x2D, 0x2D] => .stop
  | 0x2D :: b :: rest =>
    let body := if b = 0x2D then rest else b :: rest
    if body.head? = some 0x2D || body.head? = some 0x3D then .malformed else .ofFlag body
  | _ => .plain

/-- Reads the flags in front of the other arguments, those in `known` being allowed. -/
def parseFlags (known : List Flag) (fs : Flags) :
    List Text → Except FlagFault (Flags × List Text)
  | [] => .ok (fs, [])
  | arg :: rest =>
    match Argument.ofText arg with
    | .plain => .ok (fs, arg :: rest)
    | .stop => .ok (fs, rest)
    | .malformed => .error (.malformed arg)
    | .flag name value =>
      match known.find? fun f => f.name == name with
      | none =>
        if name == Text.ofString "help" || name == Text.ofString "h" then .error .helpWanted
        else .error (.unknown name)
      | some f =>
        match value, f.isSwitch, rest with
        | some v, _, rest =>
          match fs.set f v with
          | .error e => .error e
          | .ok fs => parseFlags known fs rest
        | none, true, rest =>
          match fs.set f "true" with
          | .error e => .error e
          | .ok fs => parseFlags known fs rest
        | none, false, v :: rest =>
          match fs.set f v with
          | .error e => .error e
          | .ok fs => parseFlags known fs rest
        | none, false, [] => .error (.noValue name)

end Stencil.Command
