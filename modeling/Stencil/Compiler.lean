import Stencil.Markup.Blanks
import Stencil.Markup.Tree
import Stencil.Program.Compile
import Stencil.Template.OfMarkup

/-!
# Compiling sources

A source is read into markup, the markup is turned into a template, and the template is compiled into
a program. Each step is taken only if the one before found no problem.
-/

namespace Stencil

structure Options where
  /-- The name of the source in messages; the empty name stands for the usual one. -/
  url : Text
  /-- Whether insignificant blanks are kept. -/
  preserve : Bool
  /-- The attribute that holds the key of an element; the empty name stands for none. -/
  key : Text
deriving DecidableEq, Repr

namespace Options

def default : Options := ⟨[], false, []⟩

/-- The name of a source in messages. -/
def sourceName (o : Options) : Text := if o.url.isEmpty then "template.html" else o.url

def source (o : Options) (text : Text) : Source := ⟨text, o.sourceName⟩

end Options

/-- The problems that make a source no template. -/
structure SyntaxError where
  source : Source
  diagnostics : List Diagnostic
deriving DecidableEq, Repr

/-- The wording of a syntax error: its problem, or all of them under their number. -/
def SyntaxError.message (e : SyntaxError) : Text :=
  match e.diagnostics with
  | [d] => d.toText e.source
  | ds =>
    Text.ofNat ds.length ++ " template errors:\n" ++
      Text.join "\n" (ds.map fun d => d.toText e.source)

inductive CompileError where
  | malformed (e : SyntaxError)
  | structural (url : Text) (e : Program.StructuralError)

def CompileError.message : CompileError → Text
  | .malformed e => e.message
  | .structural url e => e.toText url

/-- The markup of a source without problems, its blanks treated as the options ask. -/
def parseMarkup (o : Options) (text : Text) : Except SyntaxError (List Markup.Node) :=
  let tree := Markup.Tree.ofText ⟨false⟩ text
  if tree.diagnostics.isEmpty then
    .ok (if o.preserve then tree.nodes else Markup.removeBlanks tree.nodes)
  else .error ⟨o.source text, tree.diagnostics⟩

def parse (o : Options) (text : Text) : Except SyntaxError Template.Node :=
  match parseMarkup o text with
  | .error e => .error e
  | .ok nodes =>
    let reading := Template.ofMarkup nodes
    if reading.diagnostics.isEmpty then .ok reading.root
    else .error ⟨o.source text, reading.diagnostics⟩

def compile (o : Options) (text : Text) : Except CompileError (List Program.Op) :=
  match parse o text with
  | .error e => .error (.malformed e)
  | .ok root =>
    match Program.compile o.key root with
    | .error e => .error (.structural o.sourceName e)
    | .ok program => .ok program

end Stencil
