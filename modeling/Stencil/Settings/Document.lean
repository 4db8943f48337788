import Stencil.Settings.Basic
import Stencil.Yaml.Document

/-!
# Settings from documents

A document sets some of the settings and leaves the others as usual. What does not fit is collected over
the whole document; a document that cannot be read or decoded at all is given up at once. The settings of
a mapping that is taken over count only where nothing before them did.
-/

namespace Stencil.Settings

open Yaml (Node Scalar Info Fault)

/-! ### What does not fit -/

inductive Target where
  | text
  | flag
  | texts
  | settings
deriving DecidableEq, Repr

def Target.name : Target → Text
  | .text => "string"
  | .flag => "bool"
  | .texts => "[]string"
  | .settings => "config.ProjectConfig"

/-- Something in a document that does not fit. -/
inductive Mismatch where
  /-- A key appears again. -/
  | repeatedKey (line : Nat) (key : Text) (first : Nat)
  /-- There is no such setting. -/
  | unknown (line : Nat) (name : Text)
  /-- A setting is made again under another spelling. -/
  | repeated (line : Nat) (name : Text)
  /-- A node is not what it should be. -/
  | kind (line : Nat) (tag content : Text) (target : Target)
deriving DecidableEq, Repr

namespace Mismatch

/-- How much of a text is quoted in full. -/
def quotedLength : Nat := 10

/-- A text in a complaint, shortened if it is long. -/
def excerpt (t : Text) : Text :=
  if quotedLength < t.length then " `" ++ t.take 7 ++ "...`" else " `" ++ t ++ "`"

/-- The text of a node in a complaint. That of a collection is empty and is not quoted. -/
def contentText (tag content : Text) : Text :=
  if tag == Yaml.Tag.seq || tag == Yaml.Tag.map then content else excerpt content

def message : Mismatch → Text
  | .repeatedKey line key first =>
    "line " ++ Text.ofNat line ++ ": mapping key " ++ key.quoted ++ " already defined at line " ++
      Text.ofNat first
  | .unknown line name =>
    "line " ++ Text.ofNat line ++ ": field " ++ name ++ " not found in type " ++
      Target.settings.name
  | .repeated line name =>
    "line " ++ Text.ofNat line ++ ": field " ++ name ++ " already set in type " ++
      Target.settings.name
  | .kind line tag content target =>
    "line " ++ Text.ofNat line ++ ": cannot unmarshal " ++ tag ++ contentText tag content ++
      " into " ++ target.name

/-- The keys of a mapping that appear again. -/
def repeatedKeys : List (Node × Node) → List Mismatch
  | [] => []
  | (key, _) :: rest =>
    (rest.filterMap fun e =>
      if sameKey key e.1 then some (.repeatedKey e.1.line e.1.content key.line) else none) ++
      repeatedKeys rest
where
  /-- Whether two keys are written the same. -/
  sameKey : Node → Node → Bool
    | .scalar _ a _, .scalar _ b _ => a == b
    | .sequence _ _, .sequence _ _ | .mapping _ _, .mapping _ _ => true
    | .alias _ a _, .alias _ b _ | .alias _ a _, .within _ b => a == b
    | .within _ a, .alias _ b _ | .within _ a, .within _ b => a == b
    | _, _ => false

/-- What does not fit about a collection where something else should be. -/
def ofCollection (target : Target) : Node → List Mismatch
  | .sequence info _ => [.kind info.line info.tag [] target]
  | .mapping info entries =>
    let repeated := repeatedKeys entries
    if repeated.isEmpty then [.kind info.line info.tag [] target] else repeated
  | _ => []

end Mismatch

/-! ### Single settings -/

/-- What was found for a setting, if anything, and what does not fit. -/
structure Found (α : Type) where
  value : Option α
  mismatches : List Mismatch

/-- A scalar as a setting. `accept` says what a meaning and a text stand for; nothing stands for
nothing. -/
def ofScalar {α : Type} (target : Target) (accept : Scalar → Text → Option α) (n : Node) :
    Except Fault (Found α) :=
  match n.followed with
  | .scalar info value _ =>
    (Scalar.decode info.tag value).map fun s =>
      match s, accept s value with
      | _, some a => ⟨some a, []⟩
      | .null, none => ⟨none, []⟩
      | _, none => ⟨none, [.kind info.line info.tag value target]⟩
  | .within _ name => .error (.plain (.selfReference name))
  | n => .ok ⟨none, Mismatch.ofCollection target n⟩

/-- The text of a scalar: what it means if that is text, and else what it is written as. -/
def asText : Scalar → Text → Option Text
  | .null, _ => none
  | .text t, _ => some t
  | _, written => some written

def yesWords : List String := ["y", "Y", "yes", "on"]

def noWords : List String := ["n", "N", "no", "off"]

/-- The truth value of a scalar, or of a word for one. -/
def asFlag : Scalar → Text → Option Bool
  | .bool b, _ => some b
  | .text t, _ =>
    if yesWords.any fun w => Text.ofString w == t then some true
    else if noWords.any fun w => Text.ofString w == t then some false
    else none
  | _, _ => none

def findText (n : Node) : Except Fault (Found Text) := ofScalar .text asText n

def findFlag (n : Node) : Except Fault (Found Bool) := ofScalar .flag asFlag n

/-- Nodes as texts, without those that are nothing. -/
def findItems : List Node → Except Fault (List Text × List Mismatch)
  | [] => .ok ([], [])
  | n :: rest => do
    let first ← findText n
    let more ← findItems rest
    return (first.value.toList ++ more.1, first.mismatches ++ more.2)

/-- A node as a list of texts; nothing is the empty list. -/
def findTexts (n : Node) : Except Fault (Found (List Text)) :=
  match n.followed with
  | .sequence _ items => (findItems items).map fun found => ⟨some found.1, found.2⟩
  | n => ofScalar .texts (fun s _ => match s with | .null => some [] | _ => none) n

/-! ### Settings -/

/-- The names of settings in documents. -/
inductive Field where
  | preserve
  | key
  | out
  | exclude
deriving DecidableEq, Repr

def fields : List (String × Field) :=
  [("preserveWhitespaces", .preserve), ("keyAttribute", .key), ("outDir", .out),
    ("exclude", .exclude)]

def Field.ofName? (name : Text) : Option Field :=
  (fields.find? fun f => Text.ofString f.1 == name).map Prod.snd

structure Draft where
  settings : Settings
  mismatches : List Mismatch
  /-- While entries are taken over, the names for which they come too late. -/
  taken : Option (List Text)
  /-- The fields that have been set in this mapping. -/
  set : List Field

namespace Draft

/-- The usual settings, with nothing read yet. -/
def start : Draft := ⟨.default, [], none, []⟩

def report (d : Draft) (ms : List Mismatch) : Draft := { d with mismatches := d.mismatches ++ ms }

def put {α : Type} (d : Draft) (found : Found α) (change : Settings → α → Settings) : Draft :=
  { d with
    settings := (found.value.map (change d.settings)).getD d.settings
    mismatches := d.mismatches ++ found.mismatches }

def setField (d : Draft) (f : Field) (n : Node) : Except Fault Draft :=
  let d := { d with set := f :: d.set }
  match f with
  | .preserve => (findFlag n).map fun found => d.put found fun s b => { s with preserve := b }
  | .key => (findText n).map fun found => d.put found fun s t => { s with key := t }
  | .out => (findText n).map fun found => d.put found fun s t => { s with out := t }
  | .exclude => (findTexts n).map fun found => d.put found fun s ts => { s with exclude := ts }

def addNamed (d : Draft) (name : Text) (line : Nat) (value : Node) : Except Fault Draft :=
  if (d.taken.getD []).contains name then .ok d
  else
    let d := { d with taken := d.taken.map (name :: ·) }
    match Field.ofName? name with
    | none => .ok (d.report [.unknown line name])
    | some f =>
      if d.set.contains f then .ok (d.report [.repeated line name]) else d.setField f value

/-- Whether a key says that the entries of a mapping are taken over. -/
def isMerge : Node → Bool
  | .scalar info value _ => value == Node.mergeKey && info.tag == Yaml.Tag.merge
  | _ => false

/-- A draft after an entry; one that is taken over is left for later. -/
def addEntry (d : Draft) (key value : Node) : Except Fault Draft :=
  if isMerge key then .ok d
  else
    match findText key with
    | .error e => .error e
    | .ok ⟨none, ms⟩ => .ok (d.report ms)
    | .ok ⟨some name, ms⟩ => (d.report ms).addNamed name key.line value

def addEntries (d : Draft) : List (Node × Node) → Except Fault Draft
  | [] => .ok d
  | (key, value) :: rest =>
    match d.addEntry key value with
    | .error e => .error e
    | .ok d => d.addEntries rest

/-- The names that the keys of a mapping stand for. -/
def namesOf (entries : List (Node × Node)) : List Text :=
  entries.filterMap fun e =>
    match e.1.followed with
    | .scalar info value _ =>
      match Scalar.decode info.tag value with
      | .ok (.text t) => some t
      | _ => none
    | _ => none

/-- A draft after a mapping; `merge` adds what the mapping takes over, which comes last. -/
def addMapping (d : Draft) (entries : List (Node × Node)) (merge : Draft → Except Fault Draft) :
    Except Fault Draft :=
  let repeated := Mismatch.repeatedKeys entries
  if !repeated.isEmpty then .ok (d.report repeated)
  else
    match { d with set := [] }.addEntries entries with
    | .error e => .error e
    | .ok inner =>
      match merge { inner with taken := some (inner.taken.getD (namesOf entries)) } with
      | .error e => .error e
      | .ok merged => .ok { merged with taken := d.taken.map fun _ => merged.taken.getD [] }

mutual

def mergeFrom (d : Draft) : List (Node × Node) → Except Fault Draft
  | [] => .ok d
  | (key, value) :: rest => if isMerge key then mergeNode d value else mergeFrom d rest

/-- A draft after a mapping that is taken over, or several. -/
def mergeNode (d : Draft) : Node → Except Fault Draft
  | .sequence _ items => mergeItems d items
  | .mapping _ entries => d.addMapping entries fun d => mergeFrom d entries
  | .alias _ _ (.mapping _ entries) => d.addMapping entries fun d => mergeFrom d entries
  | .within _ name => .error (.plain (.selfReference name))
  | _ => .error (.plain .mergeValue)

def mergeItems (d : Draft) : List Node → Except Fault Draft
  | [] => .ok d
  | n :: rest =>
    match mergeItem d n with
    | .error e => .error e
    | .ok d => mergeItems d rest

def mergeItem (d : Draft) : Node → Except Fault Draft
  | .mapping _ entries => d.addMapping entries fun d => mergeFrom d entries
  | .alias _ _ (.mapping _ entries) => d.addMapping entries fun d => mergeFrom d entries
  | .within _ name => .error (.plain (.selfReference name))
  | _ => .error (.plain .mergeValue)

end

/-- A draft after a node that should be settings. -/
def add (d : Draft) (n : Node) : Except Fault Draft :=
  match n.followed with
  | .mapping _ entries => d.addMapping entries fun d => mergeFrom d entries
  | n =>
    (ofScalar .settings (fun _ _ => (none : Option Unit)) n).map fun found =>
      d.report found.mismatches

end Draft

/-! ### Documents -/

inductive DocumentError where
  | fault (f : Fault)
  | mismatches (ms : List Mismatch)
  | pattern (b : BadPattern)
deriving DecidableEq, Repr

def DocumentError.message : DocumentError → Text
  | .fault f => "failed to parse config: " ++ f.message
  | .mismatches ms =>
    "failed to parse config: yaml: unmarshal errors:\n  " ++
      Text.join "\n  " (ms.map Mismatch.message)
  | .pattern b => b.message

def ofNode (n : Node) : Except DocumentError Settings :=
  match Draft.start.add n with
  | .error f => .error (.fault f)
  | .ok d => if d.mismatches.isEmpty then .ok d.settings else .error (.mismatches d.mismatches)

/-- The settings of a document without a look at their patterns. -/
def read (t : Text) : Except DocumentError Settings :=
  match Node.ofText? t with
  | .error f => .error (.fault f)
  | .ok none => .ok .default
  | .ok (some n) => ofNode n

def ofText (t : Text) : Except DocumentError Settings :=
  match read t with
  | .error e => .error e
  | .ok s =>
    match s.check? with
    | some b => .error (.pattern b)
    | none => .ok s

end Stencil.Settings
