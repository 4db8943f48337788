import Stencil.Compiler
import Stencil.Files.Disk
import Stencil.Settings.Document

/-!
# Projects

All templates below a directory. A template is whatever is no directory and has a name that ends in
`.html`; directories with a name that begins with a dot are passed over, and so is whatever a pattern
leaves out.
-/

namespace Stencil

open Files (Disk Entry FileError Route)

/-! ### Settings of a directory -/

namespace Settings

def fileName : Route := "idomc.yaml"

inductive LoadError where
  | unreadable (e : FileError)
  | invalid (r : Route) (e : DocumentError)
deriving DecidableEq, Repr

def LoadError.message : LoadError → Text
  | .unreadable e => "failed to read config: " ++ e.message
  | .invalid r e => r ++ ": " ++ e.message

/-- The settings in a directory. Without a settings file they are the usual ones. -/
def load (d : Disk) (root : Route) : Except LoadError Settings :=
  let r := Route.join [root, fileName]
  match d.read r with
  | .ok t =>
    match ofText t with
    | .ok s => .ok s
    | .error e => .error (.invalid r e)
  | .error e => if e.trouble = .notFound then .ok .default else .error (.unreadable e)

end Settings

/-! ### Projects -/

/-- The templates below a directory and how they are compiled. -/
structure Project where
  /-- The directory, as the shortest route from the top. -/
  root : Route
  options : Options
  /-- Patterns of what is left out, for routes from the directory. -/
  exclude : List Text
deriving DecidableEq, Repr

namespace Project

def templateEnding : Text := ".html"

inductive OpenError where
  | file (e : FileError)
  | notDirectory (r : Route)
deriving DecidableEq, Repr

def OpenError.message : OpenError → Text
  | .file e => e.message
  | .notDirectory r => r ++ " is not a directory"

def ofDirectory (d : Disk) (r : Route) (o : Options) : Except OpenError Project :=
  let root := d.absolute r
  match d.find root with
  | .error t => .error (.file ⟨.examine, root, t⟩)
  | .ok e => if e.isDirectory then .ok ⟨root, o, []⟩ else .error (.notDirectory r)

def leaveOut (p : Project) (patterns : List Text) : Project :=
  { p with exclude := p.exclude ++ patterns }

/-! ### Finding templates -/

def patternMessage (b : Settings.BadPattern) : Text :=
  "exclude pattern " ++ b.pattern.quoted ++ ": " ++ b.fault.message

/-- Whether the first pattern that matches a route or is malformed matches it. -/
def isLeftOut (patterns : List Text) (r : Route) : Except Settings.BadPattern Bool :=
  match patterns with
  | [] => .ok false
  | pattern :: rest =>
    match Files.matchPattern pattern r with
    | .error fault => .error ⟨pattern, fault⟩
    | .ok true => .ok true
    | .ok false => isLeftOut rest r

/-- The route to an entry of a directory; the directory of the project has the empty route. -/
def below (r : Route) (name : Text) : Route := if r.isEmpty then name else r ++ "/" ++ name

mutual

/-- The routes to the templates of an entry, which has a name and a route from the project. -/
def templatesOf (patterns : List Text) (r : Route) (name : Text) :
    Entry → Except Settings.BadPattern (List Route)
  | .directory entries =>
    match isLeftOut patterns r with
    | .error e => .error e
    | .ok leftOut =>
      if leftOut || name.startsWith "." then .ok [] else templatesAmong patterns r entries
  | _ =>
    match isLeftOut patterns r with
    | .error e => .error e
    | .ok leftOut => .ok (if !leftOut && r.endsWith templateEnding then [r] else [])

/-- The routes to the templates among the entries of a directory. -/
def templatesAmong (patterns : List Text) (r : Route) :
    List (Text × Entry) → Except Settings.BadPattern (List Route)
  | [] => .ok []
  | (name, e) :: rest =>
    match templatesOf patterns (below r name) name e with
    | .error e => .error e
    | .ok first => (templatesAmong patterns r rest).map (first ++ ·)

end

/-- The routes to the templates of a project from its directory, in bytewise order. -/
def templates (d : Disk) (p : Project) : Except Settings.BadPattern (List Route) :=
  match d.find p.root with
  | .ok (.directory entries) => (templatesAmong p.exclude [] entries).map (·.mergeSort Text.le)
  | _ => .ok []

/-- The routes to the templates of a project from the top. -/
def discover (d : Disk) (p : Project) : Except Settings.BadPattern (List Route) :=
  (templates d p).map fun rs => rs.map fun r => Route.join [p.root, r]

/-! ### Compiling templates -/

inductive TemplateError where
  | unreadable (e : FileError)
  | rejected (e : CompileError)

def TemplateError.message : TemplateError → Text
  | .unreadable e => "failed to read template: " ++ e.message
  | .rejected e => e.message

/-- The program of a file. In messages the file is named by the route from the project to it, if there
is one. -/
def compileFile (d : Disk) (p : Project) (r : Route) : Except TemplateError (List Program.Op) :=
  match d.read r with
  | .error e => .error (.unreadable e)
  | .ok text =>
    match compile { p.options with url := (Route.relative? p.root r).getD r } text with
    | .error e => .error (.rejected e)
    | .ok program => .ok program

/-- The programs of a project, and the templates that have none, by their routes from the project. -/
structure Library where
  programs : List (Route × List Program.Op)
  failures : List (Route × TemplateError)

def Library.add (l : Library) (r : Route) : Except TemplateError (List Program.Op) → Library
  | .ok program => { l with programs := l.programs ++ [(r, program)] }
  | .error e => { l with failures := l.failures ++ [(r, e)] }

def failureMessage (f : Route × TemplateError) : Text := f.1 ++ ": " ++ f.2.message

def discoverMessage (b : Settings.BadPattern) : Text :=
  "failed to discover files: " ++ patternMessage b

/-- What becomes of the templates of a project. -/
def compileAll (d : Disk) (p : Project) : Except Settings.BadPattern Library :=
  (templates d p).map fun rs =>
    rs.foldl (fun l r => l.add r (compileFile d p (Route.join [p.root, r]))) ⟨[], []⟩

end Project

end Stencil
