import Stencil.Attribute.Name
import Stencil.Markup.Tag
import Stencil.Template.Node

/-!
# Writing templates

A template written as a source. Texts and quoted values may be any bytes: those that would be read as
markup are written as character references. Everything else is written as it is, so a template can be
written only if its names and paths are made of plain characters and its nodes are put together the way
reading puts them together: texts are not empty and not next to each other, void elements close
themselves, and blocks stand nowhere but at the top.
-/

namespace Stencil.Template

/-- The character that an ASCII byte stands for. -/
def byteChar (b : UInt8) : Char := Char.ofNat b.toNat

/-! ### Writing -/

/-- The bytes that are written as references: CR, `"`, `&`, `<`, `@` and the braces. -/
def isSpecialByte (b : UInt8) : Bool := [0x0D, 0x22, 0x26, 0x3C, 0x40, 0x7B, 0x7D].contains b

/-- A byte of a text as it is written. -/
def escapeByte (b : UInt8) : Text :=
  if isSpecialByte b then "&#" ++ Text.ofNat b.toNat ++ ";" else [b]

def escape (t : Text) : Text := t.flatMap escapeByte

/-- The value of an attribute as it is written, with what stands before it. -/
def printValue (a : Attr) : Text :=
  match a.form with
  | .boolean | .other _ => []
  | .literal => "=\"" ++ escape a.value ++ "\""
  | .path => "=" ++ a.value

/-- An attribute as it is written, with a blank before it. -/
def printAttr (a : Attr) : Text := " " ++ a.name ++ printValue a

def printAttrs (attrs : List Attr) : Text := attrs.flatMap printAttr

/-- What a loop is written over. -/
def printLoop (collection : Path) (key value : Text) : Text :=
  value ++ ", " ++ key ++ " of " ++ collection.toText

mutual

def print : Node → Text
  | .block children _ => printAll children
  | .element name attrs content selfClosing _ =>
    "<" ++ name ++ printAttrs attrs ++
      (if selfClosing then Text.ofString "/>" else ">" ++ printAll content ++ "</" ++ name ++ ">")
  | .text value _ => escape value
  | .expression path _ => "\x7b\x7b" ++ path.toText ++ "\x7d\x7d"
  | .conditional test consequent alternate _ =>
    "@if (" ++ test.toText ++ ") \x7b" ++ printAll consequent ++ "\x7d" ++ printAlternate alternate
  | .iteration collection key value body _ =>
    "@for (" ++ printLoop collection key value ++ ") \x7b" ++ printAll body ++ "\x7d"
  | .hole => []
  | .foreign .. => []

/-- An alternate as it is written, right behind the branch before it. -/
def printAlternate : Option (List Node) → Text
  | none => []
  | some nodes => "@else \x7b" ++ printAll nodes ++ "\x7d"

def printAll : List Node → Text
  | [] => []
  | node :: rest => print node ++ printAll rest

end

/-! ### What can be written -/

/-- A letter followed by letters, digits and dashes. -/
def isTagName : Text → Bool
  | [] => false
  | b :: rest =>
    CharClass.isLetter (byteChar b) &&
      rest.all fun c =>
        CharClass.isLetter (byteChar c) || CharClass.isDigit (byteChar c) || byteChar c == '-'

/-- Letters, digits, dashes and underscores. -/
def isAttrName (t : Text) : Bool :=
  !t.isEmpty && t.all fun b =>
    CharClass.isLetter (byteChar b) || CharClass.isDigit (byteChar b) || byteChar b == '-' ||
      byteChar b == '_'

/-- A name that a loop may bind. -/
def isVariableName : Text → Bool
  | [] => false
  | b :: rest =>
    CharClass.isVariableStart (byteChar b) && rest.all fun c => CharClass.isVariable (byteChar c)

/-- A segment of letters, digits, `_`, `$` and `-`. -/
def isPlainSegment (t : Text) : Bool :=
  !t.isEmpty && t.all fun b => CharClass.isIdentifier (byteChar b)

/-- A path of plain segments; the root path is one. -/
def isPlainPath (p : Path) : Bool := p.all isPlainSegment

/-- The dotted form of a plain path. -/
def isPathText (t : Text) : Bool := t == [0x2E] || isPlainPath (t.splitOn 0x2E)

/-- An attribute that can be written: a spread of a plain path, or a plain name with a value. The value
of an event attribute is blank or a path. -/
def isPrintableAttr (a : Attr) : Bool :=
  if Attribute.isSpread a.name then
    a.form == .boolean && a.value.isEmpty && isPathText (Attribute.spreadSource a.name)
  else
    isAttrName a.name &&
      match a.form with
      | .boolean => a.value.isEmpty
      | .literal => !Attribute.isEvent a.name || a.value.isBlank || (Path.parse a.value).isOk
      | .path => isPathText a.value
      | .other _ => false

/-- An element name that is written as it is, and of a kind whose content is read as it is. -/
def isPrintableTag (name : Text) : Bool :=
  isTagName name && (Markup.Tag.ofName name == {} || Markup.Tag.ofName name == { isVoid := true })

def startsWithText : List Node → Bool
  | .text .. :: _ => true
  | _ => false

mutual

/-- A node that can be written where other nodes stand around it. -/
def isPrintable : Node → Bool
  | .element name attrs content selfClosing _ =>
    isPrintableTag name && attrs.all isPrintableAttr && (!Markup.isVoidName name || selfClosing) &&
      (!selfClosing || content.isEmpty) && arePrintable content
  | .text value _ => !value.isEmpty
  | .expression path _ => isPlainPath path
  | .conditional test consequent alternate _ =>
    isPlainPath test && arePrintable consequent && isPrintableAlternate alternate
  | .iteration collection key value body _ =>
    isPlainPath collection && isVariableName key && isVariableName value && key != value &&
      arePrintable body
  | .block .. | .hole | .foreign .. => false

def isPrintableAlternate : Option (List Node) → Bool
  | none => true
  | some nodes => arePrintable nodes

/-- Nodes that can be written one behind the other: no two texts are neighbours. -/
def arePrintable : List Node → Bool
  | [] => true
  | node :: rest =>
    isPrintable node && !(startsWithText [node] && startsWithText rest) && arePrintable rest

end

/-- A template that can be written: a block of such nodes. -/
def Printable : Node → Bool
  | .block children _ => arePrintable children
  | _ => false

end Stencil.Template
