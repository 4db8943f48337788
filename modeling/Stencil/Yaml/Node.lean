import Stencil.Yaml.Scalar
import Stencil.Yaml.Token

/-!
# Nodes

What a document is made of once its tokens are put together. Every node keeps its tag in short form and
the number of the line it begins on.
-/

namespace Stencil.Yaml

structure Info where
  tag : Text
  line : Nat
deriving DecidableEq, Repr

inductive Node where
  | scalar (info : Info) (value : Text) (style : Style)
  | sequence (info : Info) (items : List Node)
  | mapping (info : Info) (entries : List (Node × Node))
  /-- Another mention of a node by its name. -/
  | alias (line : Nat) (name : Text) (target : Node)
  /-- A mention of a node by its name within that node. -/
  | within (line : Nat) (name : Text)

namespace Node

def line : Node → Nat
  | .scalar info _ _ | .sequence info _ | .mapping info _ => info.line
  | .alias line _ _ | .within line _ => line

/-- A node with its mentions followed. -/
def followed : Node → Node
  | .alias _ _ target => target.followed
  | n => n

/-- The text of a node itself: what a scalar is written as, or the name of a mention. -/
def content : Node → Text
  | .scalar _ value _ => value
  | .alias _ name _ | .within _ name => name
  | .sequence _ _ | .mapping _ _ => []

/-- The key of a mapping whose entries are taken over. -/
def mergeKey : Text := "<<"

/-- The tag of a scalar for which none is given. -/
def defaultTag (value : Text) (style : Style) : Text :=
  if style ≠ .plain then Tag.str
  else if value == mergeKey then Tag.merge
  else (Scalar.ofPlain true value).tag

/-- Whether a tag is given. A lone `!` says no more than no tag. -/
def isGiven (tag : Text) : Bool := !tag.isEmpty && tag != Text.ofString "!"

/-- A scalar with the tag that is given, if any. -/
def ofScalar (tag : Text) (line : Nat) (value : Text) (style : Style) : Node :=
  .scalar ⟨if isGiven tag then Tag.shorten tag else defaultTag value style, line + 1⟩ value style

/-- A scalar that is not there. -/
def empty (line : Nat) : Node := ofScalar [] line [] .plain

def ofItems (tag : Text) (line : Nat) (items : List Node) : Node :=
  .sequence ⟨if isGiven tag then Tag.shorten tag else Tag.seq, line + 1⟩ items

def ofEntries (tag : Text) (line : Nat) (entries : List (Node × Node)) : Node :=
  .mapping ⟨if isGiven tag then Tag.shorten tag else Tag.map, line + 1⟩ entries

end Node

end Stencil.Yaml
