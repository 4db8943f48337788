import Stencil.Attribute.Name
import Stencil.Template.Node
import Stencil.Value.Access
import Stencil.Value.Collection

/-!
# Attribute plans

The attributes of an element are sorted by their roles once, when a template is compiled; each
rendering then only resolves paths. Events go to the dynamic list. Everything else is static, and a
static name appears once, where it was first declared and with the value of its last declaration,
except that all class fragments are merged into one class attribute.
-/

namespace Stencil.Attribute

/-- What an attribute is for. -/
inductive Role where
  | static
  | styleClass
  | event
  | spread
  | key
deriving DecidableEq, Repr

def roleNames : List String := ["static", "class", "event", "spread", "key"]

/-- Where an attribute has its value from. -/
inductive Content where
  /-- There is no value. -/
  | nothing
  /-- Being there is the value. -/
  | flag
  | literal (t : Text)
  | bound (path : Path)
deriving DecidableEq, Repr

namespace Content

/-- The value in a context; a path that leads nowhere gives null. -/
def resolve (context : Value) : Content → Value
  | .nothing => .null
  | .flag => .bool true
  | .literal t => .text t
  | .bound path =>
    match Value.resolve path context with
    | .missing => .null
    | v => v

end Content

structure Entry where
  role : Role
  name : Text
  content : Content
deriving DecidableEq, Repr

namespace Entry

def toText (e : Entry) : Text :=
  match e.content with
  | .bound path =>
    if e.role = .spread then spreadMark ++ path.toText
    else e.name ++ "=\x7b" ++ path.toText ++ "\x7d"
  | .flag => e.name
  | .literal t => e.name ++ "=" ++ t.quoted
  | .nothing => e.name ++ "=%!q(<nil>)"

end Entry

inductive AttrError where
  | spreadWithValue (name : Text)
  | spreadWithoutPath (name : Text)
  | spread (cause : PathError)
  | event (name : Text) (cause : PathError)
  | value (name : Text) (cause : PathError)
  | form (name : Text) (code : Int)
deriving DecidableEq, Repr

def AttrError.message : AttrError → Text
  | .spreadWithValue name => "spread attribute " ++ name.quoted ++ " cannot have a value"
  | .spreadWithoutPath name => "spread attribute " ++ name.quoted ++ " needs a path"
  | .spread cause => cause.message
  | .event name cause => "event attribute " ++ name.quoted ++ ": " ++ cause.message
  | .value name cause => "attribute " ++ name.quoted ++ ": " ++ cause.message
  | .form name code =>
    "attribute " ++ name.quoted ++ ": unknown value kind " ++ Text.ofInt code

namespace Entry

def ofSpread (a : Template.Attr) : Except AttrError Entry :=
  if a.form ≠ .boolean then .error (.spreadWithValue a.name)
  else if (spreadSource a.name).isBlank then .error (.spreadWithoutPath a.name)
  else
    match Path.parse (spreadSource a.name) with
    | .error e => .error (.spread e)
    | .ok path => .ok ⟨.spread, a.name, .bound path⟩

/-- The entry of an event attribute. Its value is a path, unless it is blank. -/
def ofEvent (a : Template.Attr) : Except AttrError Entry :=
  if a.form = .boolean || a.value.isBlank then .ok ⟨.event, a.name, .nothing⟩
  else
    match Path.parse a.value with
    | .error e => .error (.event a.name e)
    | .ok path => .ok ⟨.event, a.name, .bound path⟩

def ofValue (role : Role) (a : Template.Attr) : Except AttrError Entry :=
  match a.form with
  | .boolean => .ok ⟨role, a.name, .flag⟩
  | .literal => .ok ⟨role, a.name, .literal a.value⟩
  | .path =>
    match Path.parse a.value with
    | .error e => .error (.value a.name e)
    | .ok path => .ok ⟨role, a.name, .bound path⟩
  | .other code => .error (.form a.name code)

/-- The entry of an attribute. The attribute called `key` is the key of the element; the empty name
stands for none. -/
def ofAttr (key : Text) (a : Template.Attr) : Except AttrError Entry :=
  if isSpread a.name then ofSpread a
  else if isEvent a.name then ofEvent a
  else if !key.isEmpty && a.name = key then ofValue .key a
  else if isClass a.name then ofValue .styleClass a
  else ofValue .static a

end Entry

/-- The attributes of an element, sorted by their roles. -/
structure Plan where
  key : Option Entry
  entries : List Entry
deriving DecidableEq, Repr

/-- What the attributes of an element are in a context. -/
structure Evaluation where
  static : List (Text × Value)
  dynamic : List (Text × Value)
  key : Text

/-- A contribution to the static attributes. -/
inductive Declaration where
  | value (name : Text) (v : Value)
  | fragment (v : Value)

namespace Declaration

def ofPair (e : Value × Value) : Declaration :=
  if isClass e.1.toText then .fragment e.2 else .value e.1.toText e.2

/-- What an entry contributes in a context. -/
def ofEntry (context : Value) (e : Entry) : List Declaration :=
  match e.role with
  | .event | .key => []
  | .styleClass => [.fragment (e.content.resolve context)]
  | .spread =>
    let source := e.content.resolve context
    if source.isMapping then source.entries.map ofPair else []
  | .static => [.value e.name (e.content.resolve context)]

/-- The text of a class fragment; a truth value contributes none. -/
def fragmentText : Value → Text
  | .bool _ => []
  | v => v.toText.trim

end Declaration

/-- Static attributes under construction, and the class fragments so far. -/
structure Assembly where
  attrs : Entries Value
  classes : List Text

namespace Assembly

def add (a : Assembly) : Declaration → Assembly
  | .value name v => { a with attrs := a.attrs.set name v }
  | .fragment v =>
    let t := Declaration.fragmentText v
    let classes := if t.isEmpty then a.classes else a.classes ++ [t]
    ⟨a.attrs.set className (.text (Text.join " " classes)), classes⟩

/-- The static attributes that declarations amount to. -/
def ofDeclarations (ds : List Declaration) : Assembly := ds.foldl add ⟨[], []⟩

end Assembly

namespace Plan

def empty : Plan := ⟨none, []⟩

/-- The plan with one more attribute in front. The last key counts. -/
def cons (e : Entry) (p : Plan) : Plan :=
  if e.role = .key then ⟨p.key.or (some e), p.entries⟩ else ⟨p.key, e :: p.entries⟩

/-- Sorts attributes by their roles. -/
def ofAttrs (key : Text) : List Template.Attr → Except AttrError Plan
  | [] => .ok empty
  | a :: rest =>
    match Entry.ofAttr key a with
    | .error e => .error e
    | .ok e => (ofAttrs key rest).map (cons e)

def size (p : Plan) : Nat := p.key.toList.length + p.entries.length

def declarations (context : Value) (p : Plan) : List Declaration :=
  p.entries.flatMap (Declaration.ofEntry context)

def handlers (context : Value) (p : Plan) : List (Text × Value) :=
  (p.entries.filter fun e => e.role = .event).map fun e => (e.name, e.content.resolve context)

def evaluate (context : Value) (p : Plan) : Evaluation where
  static := (Assembly.ofDeclarations (p.declarations context)).attrs
  dynamic := p.handlers context
  key := (p.key.map fun e => (e.content.resolve context).toText).getD []

/-- The attributes as they are listed, the key first. -/
def toText (p : Plan) : Text :=
  Text.join " " ((p.key.map fun e => Text.ofString "key:" ++ e.toText).toList ++ p.entries.map Entry.toText)

end Plan

end Stencil.Attribute
