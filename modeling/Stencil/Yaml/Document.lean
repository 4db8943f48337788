import Stencil.Value.Entries
import Stencil.Yaml.Node
import Stencil.Yaml.Scan

/-!
# Documents

Tokens put together to the first document of a stream. What follows that document is not looked at, but
for one token.
-/

namespace Stencil.Yaml

/-- The tokens still to be read, and what has been declared so far. -/
structure Reader where
  stream : Stream
  /-- What the handles of tags stand for. -/
  handles : List (Text × Text)
  /-- The nodes with a name, without the nodes that have begun and not ended. -/
  anchors : List (Text × Option Node)

namespace Reader

def ofStream (s : Stream) : Reader := ⟨s, [], []⟩

/-- The next token. After the last one the stream has ended. -/
def peek (r : Reader) : Except Fault Token :=
  match r.stream.tokens, r.stream.stop with
  | t :: _, _ => .ok t
  | [], some stop => .error stop
  | [], none => .ok ⟨.streamEnd, 0⟩

def skip (r : Reader) : Reader :=
  { r with stream := { r.stream with tokens := r.stream.tokens.drop 1 } }

/-- A name for a node, if there is one; the node is `none` until it has ended. -/
def name (r : Reader) (anchor : Option Text) (node : Option Node) : Reader :=
  match anchor with
  | some a => { r with anchors := Entries.set a node r.anchors }
  | none => r

/-- The end of a node with a name. If the name has gone to another node inside it, it stays there. -/
def close (r : Reader) (anchor : Option Text) (node : Node) : Reader :=
  match anchor.map fun a => Entries.get? a r.anchors with
  | some (some none) => r.name anchor (some node)
  | _ => r

end Reader

/-! ### Properties of nodes -/

/-- What is said about a node before it begins. -/
structure Properties where
  anchor : Option Text
  /-- Its tag in full, or nothing. -/
  tag : Text
  /-- The line of the first token of the node. -/
  line : Nat

/-- The tag that a handle and a suffix stand for. -/
def Reader.expand (r : Reader) (start : Nat) (handle suffix : Text) (line : Nat) :
    Except Fault Text :=
  if handle.isEmpty then .ok suffix
  else
    match Entries.get? handle r.handles with
    | some lead => .ok (lead ++ suffix)
    | none => .error (.ofNode start line .undefinedTag)

def takeAnchor (r : Reader) : Except Fault (Option Text × Reader) :=
  r.peek.map fun t =>
    match t.lexeme with
    | .anchor name => (some name, r.skip)
    | _ => (none, r)

/-- A tag in front, if there is one: its handle, its suffix and its line. -/
def takeTagToken (r : Reader) : Except Fault (Option (Text × Text × Nat) × Reader) :=
  r.peek.map fun t =>
    match t.lexeme with
    | .tag handle suffix => (some (handle, suffix, t.line), r.skip)
    | _ => (none, r)

/-- Reads an anchor and a tag in any order. -/
def takeProperties (r : Reader) : Except Fault (Properties × Reader) := do
  let first ← r.peek
  let (before, r) ← takeAnchor r
  let (tag, r) ← takeTagToken r
  let (after, r) ← if before.isNone && tag.isSome then takeAnchor r else pure (none, r)
  let full ←
    match tag with
    | some (handle, suffix, line) => r.expand first.line handle suffix line
    | none => pure []
  return (⟨before.or after, full, first.line⟩, r)

/-! ### Collections -/

/-- Whether an entry of a block sequence is empty before a lexeme. -/
def endsItem : Lexeme → Bool
  | .blockEntry | .blockEnd => true
  | _ => false

/-- Whether a key or a value of a block mapping is empty before a lexeme. -/
def endsEntry : Lexeme → Bool
  | .key | .value | .blockEnd => true
  | _ => false

/-- Whether a part of a flow collection that ends with `close` is empty before a lexeme. -/
def endsFlowPart (close l : Lexeme) : Bool := l == .flowEntry || l == close

mutual

/-- Reads a node. Block collections are read only if `block` holds, and a sequence without an
indentation of its own only if `indentless` holds. `fuel` bounds the steps. -/
def takeNode (block indentless : Bool) : (fuel : Nat) → Reader → Except Fault (Node × Reader)
  | 0, _ => .error (.plain .depth)
  | fuel + 1, r => do
    let t ← r.peek
    match t.lexeme with
    | .alias name =>
      match Entries.get? name r.anchors with
      | some (some node) => return (.alias (t.line + 1) name node, r.skip)
      | some none => return (.within (t.line + 1) name, r.skip)
      | none => throw (.plain (.unknownAnchor name))
    | _ =>
      let (p, r) ← takeProperties r
      let t ← r.peek
      let opened := r.name p.anchor none
      match t.lexeme with
      | .scalar value style =>
        let node := Node.ofScalar p.tag p.line value style
        return (node, r.skip.name p.anchor (some node))
      | .flowSequenceStart =>
        let (items, r) ← takeFlowItems t.line true [] fuel opened.skip
        let node := Node.ofItems p.tag p.line items
        return (node, r.close p.anchor node)
      | .flowMappingStart =>
        let (entries, r) ← takeFlowEntries t.line true [] fuel opened.skip
        let node := Node.ofEntries p.tag p.line entries
        return (node, r.close p.anchor node)
      | l =>
        if indentless && l == .blockEntry then
          let (items, r) ← takeLooseItems [] fuel opened
          let node := Node.ofItems p.tag p.line items
          return (node, r.close p.anchor node)
        else if block && l == .blockSequenceStart then
          let (items, r) ← takeItems t.line [] fuel opened.skip
          let node := Node.ofItems p.tag p.line items
          return (node, r.close p.anchor node)
        else if block && l == .blockMappingStart then
          let (entries, r) ← takeEntries t.line [] fuel opened.skip
          let node := Node.ofEntries p.tag p.line entries
          return (node, r.close p.anchor node)
        else if p.anchor.isSome || !p.tag.isEmpty then
          let node := Node.ofScalar p.tag p.line [] .plain
          return (node, r.name p.anchor (some node))
        else throw (.ofNode p.line t.line .nodeContent)
termination_by structural fuel => fuel

/-- Reads a part of a collection that stands behind an indicator on line `line`, unless it is empty. -/
def takePart (indentless : Bool) (isEmpty : Lexeme → Bool) (line : Nat) :
    (fuel : Nat) → Reader → Except Fault (Node × Reader)
  | 0, _ => .error (.plain .depth)
  | fuel + 1, r => do
    let t ← r.peek
    if isEmpty t.lexeme then return (.empty line, r) else takeNode true indentless fuel r
termination_by structural fuel => fuel

/-- Reads the items of a block sequence that began on line `start`, after those in `items`, last
first. -/
def takeItems (start : Nat) (items : List Node) :
    (fuel : Nat) → Reader → Except Fault (List Node × Reader)
  | 0, _ => .error (.plain .depth)
  | fuel + 1, r => do
    let t ← r.peek
    match t.lexeme with
    | .blockEntry =>
      let (item, r) ← takePart false endsItem t.line fuel r.skip
      takeItems start (item :: items) fuel r
    | .blockEnd => return (items.reverse, r.skip)
    | _ => throw (.ofNode start t.line .blockEntry)
termination_by structural fuel => fuel

/-- Reads the items of a block sequence without an indentation of its own. -/
def takeLooseItems (items : List Node) :
    (fuel : Nat) → Reader → Except Fault (List Node × Reader)
  | 0, _ => .error (.plain .depth)
  | fuel + 1, r => do
    let t ← r.peek
    match t.lexeme with
    | .blockEntry =>
      let (item, r) ← takePart false (fun l => endsItem l || endsEntry l) t.line fuel r.skip
      takeLooseItems (item :: items) fuel r
    | _ => return (items.reverse, r)
termination_by structural fuel => fuel

/-- Reads the entries of a block mapping. -/
def takeEntries (start : Nat) (entries : List (Node × Node)) :
    (fuel : Nat) → Reader → Except Fault (List (Node × Node) × Reader)
  | 0, _ => .error (.plain .depth)
  | fuel + 1, r => do
    let t ← r.peek
    match t.lexeme with
    | .key =>
      let (key, r) ← takePart true endsEntry t.line fuel r.skip
      let mark ← r.peek
      let (value, r) ←
        if mark.lexeme == .value then takePart true endsEntry mark.line fuel r.skip
        else pure (.empty mark.line, r)
      takeEntries start ((key, value) :: entries) fuel r
    | .blockEnd => return (entries.reverse, r.skip)
    | _ => throw (.ofNode start t.line .blockKey)
termination_by structural fuel => fuel

/-- Reads the value of an entry in a flow collection that ends with `close`, or finds it empty on the
line that `lineOf` chooses between that of the colon and that of the token after it. -/
def takeFlowValue (close : Lexeme) (lineOf : Nat → Nat → Nat) :
    (fuel : Nat) → Reader → Except Fault (Node × Reader)
  | 0, _ => .error (.plain .depth)
  | fuel + 1, r => do
    let mark ← r.peek
    if mark.lexeme == .value then
      let t ← r.skip.peek
      if endsFlowPart close t.lexeme then return (.empty (lineOf mark.line t.line), r.skip)
      else takeNode false false fuel r.skip
    else return (.empty mark.line, r)
termination_by structural fuel => fuel

/-- Reads the items of a flow sequence; `first` says that none has been read. -/
def takeFlowItems (start : Nat) (first : Bool) (items : List Node) :
    (fuel : Nat) → Reader → Except Fault (List Node × Reader)
  | 0, _ => .error (.plain .depth)
  | fuel + 1, r => do
    let t ← r.peek
    if t.lexeme == .flowSequenceEnd then return (items.reverse, r.skip)
    if !first && t.lexeme != .flowEntry then throw (.ofNode start t.line .flowSequenceEnd)
    let r := if first then r else r.skip
    let t ← r.peek
    match t.lexeme with
    | .flowSequenceEnd => return (items.reverse, r.skip)
    | .key =>
      let next ← r.skip.peek
      let (key, r) ←
        if next.lexeme == .value || endsFlowPart .flowSequenceEnd next.lexeme then
          pure (.empty next.line, r.skip.skip)
        else takeNode false false fuel r.skip
      let (value, r) ← takeFlowValue .flowSequenceEnd (fun mark _ => mark) fuel r
      takeFlowItems start false (Node.ofEntries [] t.line [(key, value)] :: items) fuel r
    | _ =>
      let (item, r) ← takeNode false false fuel r
      takeFlowItems start false (item :: items) fuel r
termination_by structural fuel => fuel

/-- Reads the entries of a flow mapping; `first` says that none has been read. -/
def takeFlowEntries (start : Nat) (first : Bool) (entries : List (Node × Node)) :
    (fuel : Nat) → Reader → Except Fault (List (Node × Node) × Reader)
  | 0, _ => .error (.plain .depth)
  | fuel + 1, r => do
    let t ← r.peek
    if t.lexeme == .flowMappingEnd then return (entries.reverse, r.skip)
    if !first && t.lexeme != .flowEntry then throw (.ofNode start t.line .flowMappingEnd)
    let r := if first then r else r.skip
    let t ← r.peek
    match t.lexeme with
    | .flowMappingEnd => return (entries.reverse, r.skip)
    | .key =>
      let next ← r.skip.peek
      let (key, r) ←
        if next.lexeme == .value || endsFlowPart .flowMappingEnd next.lexeme then
          pure (.empty next.line, r.skip)
        else takeNode false false fuel r.skip
      let (value, r) ← takeFlowValue .flowMappingEnd (fun _ next => next) fuel r
      takeFlowEntries start false ((key, value) :: entries) fuel r
    | _ =>
      let (key, r) ← takeNode false false fuel r
      let next ← r.peek
      takeFlowEntries start false ((key, .empty next.line) :: entries) fuel r
termination_by structural fuel => fuel

end

/-! ### Documents -/

/-- What the handles stand for that need no declaration. -/
def defaultHandles : List (Text × Text) := [("!", "!"), ("!!", Tag.common)]

/-- Reads the declarations in front of a document; `versioned` says that its version has been read,
and `fuel` bounds the number of declarations. -/
def takeDirectives (versioned : Bool) : (fuel : Nat) → Reader → Except Fault Reader
  | 0, r => .ok r
  | fuel + 1, r => do
    let t ← r.peek
    match t.lexeme with
    | .version major minor =>
      if versioned then throw (.ofNode 0 t.line .duplicateVersion)
      else if major ≠ 1 || minor ≠ 1 then throw (.ofNode 0 t.line .incompatibleVersion)
      else takeDirectives true fuel r.skip
    | .tagDirective handle lead =>
      if (Entries.get? handle r.handles).isSome then throw (.ofNode 0 t.line .duplicateTag)
      else
        takeDirectives versioned fuel
          { r.skip with handles := Entries.set handle lead r.handles }
    | _ => return { r with handles := r.handles ++ defaultHandles }

/-- Whether a document that begins with a lexeme has declarations or a mark of its start. -/
def beginsExplicitly : Lexeme → Bool
  | .version _ _ | .tagDirective _ _ | .documentStart => true
  | _ => false

/-- Whether a document is empty before a lexeme. -/
def endsDocument : Lexeme → Bool
  | .version _ _ | .tagDirective _ _ | .documentStart | .documentEnd | .streamEnd => true
  | _ => false

/-- Reads the first document; `none` if there is none. `fuel` bounds the steps. -/
def takeDocument (fuel : Nat) (r : Reader) : Except Fault (Option Node) := do
  let t ← r.peek
  if t.lexeme == .streamEnd then return none
  let explicit := beginsExplicitly t.lexeme
  let r ← takeDirectives false fuel r
  let start ← r.peek
  if explicit && start.lexeme != .documentStart then
    throw (.ofNode 0 start.line .documentStart)
  let r := if explicit then r.skip else r
  let t ← r.peek
  let (node, r) ←
    if explicit && endsDocument t.lexeme then pure (Node.empty t.line, r)
    else takeNode true false fuel r
  let _ ← r.peek
  return some node

/-- The root of the first document of a text; `none` if there is none. -/
def Node.ofText? (t : Text) : Except Fault (Option Node) :=
  let stream := Stream.ofText t
  let r := Reader.ofStream stream
  match r.peek with
  | .error e => .error e
  | .ok _ => takeDocument (3 * stream.tokens.length + 8) r.skip

end Stencil.Yaml
