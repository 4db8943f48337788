import Stencil.Command.Flag
import Stencil.Html.Serialize
import Stencil.Html.Writer
import Stencil.Project
import Stencil.Yaml.Context

/-!
# Commands

What the program does with its arguments: it reads from a disk, prints, and may leave files behind.
-/

namespace Stencil.Command

open Files (Disk FileError Route)

/-! ### Errors -/

inductive CommandError where
  | flag (f : FlagFault)
  /-- There is not exactly one path. -/
  | pathCount (n : Nat)
  | file (e : FileError)
  | rejected (e : CompileError)
  | context (r : Route) (e : Yaml.ContextError)
  /-- There is no such way to write HTML. -/
  | engine (name : Text)
  | render (message : Text)
  | settings (e : Settings.LoadError)
  | project (e : Project.OpenError)
  | discover (b : Settings.BadPattern)
  | template (f : Route × Project.TemplateError)

def CommandError.message : CommandError → Text
  | .flag f => f.message
  | .pathCount n => "expected exactly one path, got " ++ Text.ofNat n
  | .file e => e.message
  | .rejected e => e.message
  | .context r e => r ++ ": " ++ e.message
  | .engine name => "unknown engine " ++ name.quoted
  | .render message => message
  | .settings e => e.message
  | .project e => e.message
  | .discover b => Project.discoverMessage b
  | .template f => Project.failureMessage f

structure Effect where
  printed : Text
  errors : List CommandError
  disk : Disk

namespace Effect

/-- Nothing but an error. -/
def fail (d : Disk) (e : CommandError) : Effect := ⟨[], [e], d⟩

/-- Nothing but some text. -/
def print (d : Disk) (t : Text) : Effect := ⟨t, [], d⟩

/-- What is done with a result, if there is one. -/
def ofExcept (d : Disk) : Except CommandError Effect → Effect
  | .ok e => e
  | .error e => fail d e

end Effect

/-! ### Arguments -/

/-- The flags of a command and its only path. -/
def takePath (known : List Flag) (args : List Text) : Except CommandError (Flags × Route) :=
  match parseFlags known .none args with
  | .error f => .error (.flag f)
  | .ok (fs, [r]) => .ok (fs, r)
  | .ok (_, rest) => .error (.pathCount rest.length)

def commonFlags : List Flag := [.preserve, .key]

def optionsOf (fs : Flags) (r : Route) : Options :=
  ⟨r, fs.preserve.getD false, fs.key.getD []⟩

def compileFile (d : Disk) (fs : Flags) (r : Route) : Except CommandError (List Program.Op) :=
  match d.read r with
  | .error e => .error (.file e)
  | .ok text =>
    match compile (optionsOf fs r) text with
    | .error e => .error (.rejected e)
    | .ok program => .ok program

/-- The context that the flags ask for; an empty mapping if they ask for none. -/
def loadContext (d : Disk) (fs : Flags) : Except CommandError Value :=
  match fs.context.getD [] with
  | [] => .ok (.map [])
  | r =>
    match d.read r with
    | .error e => .error (.file e)
    | .ok text =>
      match Yaml.contextOf text with
      | .error e => .error (.context r e)
      | .ok v => .ok v

/-! ### Commands on one file -/

def runProgram (d : Disk) (args : List Text) : Effect :=
  .ofExcept d do
    let (fs, r) ← takePath commonFlags args
    let program ← compileFile d fs r
    return .print d (Program.listing program)

def instructionsOf (d : Disk) (fs : Flags) (r : Route) : Except CommandError (List Instruction) := do
  let program ← compileFile d fs r
  let context ← loadContext d fs
  return Program.run program context

def runOps (d : Disk) (args : List Text) : Effect :=
  .ofExcept d do
    let (fs, r) ← takePath (commonFlags ++ [.context]) args
    let is ← instructionsOf d fs r
    return .print d (Instruction.listing is)

/-- The way to write HTML that is used if none is asked for. -/
def usualEngine : Text := "gomponents"

/-- The way to write HTML that builds a document first. -/
def documentEngine : Text := "dom"

/-- Writes the elements that instructions stand for one after the other. -/
def writeElements (d : Disk) (key : Text) (is : List Instruction) : Effect :=
  match (is.foldl Html.Writer.step (.new key)).render with
  | .ok t => .print d (t ++ "\n")
  | .error i => .fail d (.render (Html.Writer.message i))

/-- Writes the document that instructions stand for. What comes before an error is printed. -/
def writeDocument (d : Disk) (is : List Instruction) : Effect :=
  match (is.foldl Html.Document.step .empty).render with
  | (t, none) => .print d (t ++ "\n")
  | (t, some message) => ⟨t, [.render message], d⟩

/-- Prints a file as HTML for a context. -/
def runHtml (d : Disk) (args : List Text) : Effect :=
  .ofExcept d do
    let (fs, r) ← takePath (commonFlags ++ [.context, .engine]) args
    let is ← instructionsOf d fs r
    let engine := fs.engine.getD usualEngine
    if engine == usualEngine then return writeElements d (fs.key.getD []) is
    else if engine == documentEngine then return writeDocument d is
    else throw (.engine engine)

/-! ### Commands on projects -/

def choicesOf (fs : Flags) : List Settings.Choice :=
  (fs.preserve.map Settings.Choice.preserve).toList ++ (fs.key.map Settings.Choice.key).toList ++
    (fs.out.map Settings.Choice.out).toList

/-- The project in a directory and its settings, which flags may change. -/
def openProject (d : Disk) (fs : Flags) (r : Route) : Except CommandError (Project × Settings) :=
  match Settings.load d r with
  | .error e => .error (.settings e)
  | .ok loaded =>
    let s := (choicesOf fs).foldl Settings.choose loaded
    match Project.ofDirectory d r ⟨[], s.preserve, s.key⟩ with
    | .error e => .error (.project e)
    | .ok p => .ok (p.leaveOut s.exclude, s)

/-- The programs of a project, and an error for every template that has none. -/
def compileProject (d : Disk) (p : Project) :
    List (Route × List Program.Op) × List CommandError :=
  match p.compileAll d with
  | .error b => ([], [.discover b])
  | .ok l => (l.programs, l.failures.map .template)

/-- Prints how many templates of a project can be compiled. -/
def runCheck (d : Disk) (args : List Text) : Effect :=
  .ofExcept d do
    let (fs, r) ← takePath commonFlags args
    let (p, _) ← openProject d fs r
    let compiled := compileProject d p
    return ⟨Text.ofNat compiled.1.length ++ " template(s) compiled\n", compiled.2, d⟩

def targetOf (out name : Route) : Route :=
  let stem :=
    if name.endsWith Project.templateEnding then
      name.take (name.length - Project.templateEnding.length)
    else name
  Route.join [out, stem ++ ".program"]

/-- What is done so far, and a program written to its file. -/
def Effect.writeProgram (out : Route) (e : Effect) (entry : Route × List Program.Op) : Effect :=
  let target := targetOf out entry.1
  match e.disk.makeDirectories (Route.parent target) with
  | .error problem => { e with errors := e.errors ++ [.file problem] }
  | .ok d =>
    match d.write target (Program.listing entry.2) with
    | .error problem => { e with errors := e.errors ++ [.file problem], disk := d }
    | .ok d => { e with printed := e.printed ++ entry.1 ++ " -> " ++ target ++ "\n", disk := d }

/-- Writes the programs of a project to files and prints where they are. -/
def runBuild (d : Disk) (args : List Text) : Effect :=
  .ofExcept d do
    let (fs, r) ← takePath (commonFlags ++ [.out]) args
    let (p, s) ← openProject d fs r
    let compiled := compileProject d p
    return compiled.1.foldl (Effect.writeProgram (s.outFrom p.root)) ⟨[], compiled.2, d⟩

/-! ### The program -/

def usage : Text :=
  Text.join "\n" ([
    "idomc - incremental DOM template compiler",
    "Usage: idomc <command> [flags] <path>",
    "",
    "Commands:",
    "  program <file>   Print the compiled program",
    "  ops <file>       Print the instruction stream for a context",
    "  html <file>      Render a template to HTML for a context",
    "  build <dir>      Compile every template under dir into program listings",
    "  check <dir>      Compile every template under dir and report errors",
    "  help             Show help",
    "",
    "Run \"idomc <command> -h\" for the flags of a command.",
    ""].map Text.ofString)

structure Outcome where
  code : Nat
  stdout : Text
  stderr : Text
  disk : Disk

def Outcome.ofEffect (name : Text) (e : Effect) : Outcome :=
  if e.errors.isEmpty then ⟨0, e.printed, [], e.disk⟩
  else
    let messages := Text.join "\n" (e.errors.map CommandError.message)
    ⟨1, e.printed, name ++ " error: " ++ messages ++ "\n", e.disk⟩

def commands : List (String × (Disk → List Text → Effect)) :=
  [("program", runProgram), ("ops", runOps), ("html", runHtml), ("build", runBuild),
    ("check", runCheck)]

def helpWords : List String := ["help", "-h", "--help"]

def run (d : Disk) : List Text → Outcome
  | [] => ⟨2, [], usage, d⟩
  | name :: args =>
    if helpWords.any fun w => Text.ofString w == name then ⟨0, usage, [], d⟩
    else
      match commands.find? fun c => Text.ofString c.1 == name with
      | some c => .ofEffect name (c.2 d args)
      | none => ⟨2, [], "unknown command " ++ name.quoted ++ "\n" ++ usage, d⟩

end Stencil.Command
