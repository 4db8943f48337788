import Stencil.Files.Pattern
import Stencil.Files.Route
import Stencil.Text.Quoted

/-!
# Settings

How the templates of a project are compiled, and where the results go.
-/

namespace Stencil

structure Settings where
  /-- Whether insignificant blanks are kept. -/
  preserve : Bool
  /-- The attribute that holds the key of an element; the empty name stands for none. -/
  key : Text
  /-- The directory for results; the empty route stands for the usual one. -/
  out : Files.Route
  /-- Patterns of what is left out. -/
  exclude : List Text
deriving DecidableEq, Repr

namespace Settings

def usualOut : Files.Route := "dist/idomc"

def default : Settings := ⟨false, [], usualOut, []⟩

inductive Choice where
  | preserve (b : Bool)
  | key (name : Text)
  | out (r : Files.Route)
  /-- More patterns of what is left out. -/
  | exclude (patterns : List Text)
deriving DecidableEq, Repr

def choose (s : Settings) : Choice → Settings
  | .preserve b => { s with preserve := b }
  | .key name => { s with key := name }
  | .out r => { s with out := r }
  | .exclude patterns => { s with exclude := s.exclude ++ patterns }

/-- The usual settings after some choices. -/
def ofChoices (cs : List Choice) : Settings := cs.foldl choose default

structure BadPattern where
  pattern : Text
  fault : Files.PatternFault
deriving DecidableEq, Repr

def BadPattern.message (b : BadPattern) : Text :=
  "invalid exclude pattern " ++ b.pattern.quoted ++ ": " ++ b.fault.message

def checkPattern? (pattern : Text) : Option BadPattern :=
  match Files.matchPattern pattern [] with
  | .ok _ => none
  | .error fault => some ⟨pattern, fault⟩

/-- The complaint about the first malformed pattern, if there is one. -/
def check? (s : Settings) : Option BadPattern := s.exclude.findSome? checkPattern?

def outFrom (s : Settings) (root : Files.Route) : Files.Route :=
  let out := if s.out.isEmpty then usualOut else s.out
  if Files.Route.isAbsolute out then out else Files.Route.join [root, out]

end Settings

end Stencil
