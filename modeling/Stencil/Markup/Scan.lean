import Stencil.Problem
import Stencil.Text.Class
import Stencil.Markup.Cursor
import Stencil.Markup.Reference
import Stencil.Markup.Tag
import Stencil.Markup.Token

/-!
# Reading a source into tokens

Each construct is scanned from a cursor: the result is the tokens it gave, the cursor after it, and
the failure that cut it short, if any. Reading goes on after a failure where the cursor then stands,
so one pass reports every problem. A failed start tag keeps the tokens read so far; a failed block
header gives none.
-/

namespace Stencil.Markup

/-- Why a construct was cut short, and where the faulty stretch begins. -/
structure Failure where
  problem : Problem
  start : Cursor

structure Scan where
  tokens : List Token
  cursor : Cursor
  failure : Option Failure

/-- How line endings in texts are treated. -/
structure ScanOptions where
  /-- Keeps CR LF and CR as they are instead of writing LF. -/
  preserveLineEndings : Bool := false

namespace Scan

def done (tokens : List Token) (c : Cursor) : Scan := ⟨tokens, c, none⟩

/-- A construct cut short at cursor `c`. -/
def failed (tokens : List Token) (c : Cursor) (problem : Problem) (start : Cursor) : Scan :=
  ⟨tokens, c, some ⟨problem, start⟩⟩

/-- A construct that ends where a character other than the next one is required. -/
def unexpected (tokens : List Token) (c : Cursor) : Scan :=
  failed tokens c (.unexpectedChar c.peek?) c

def andThen (s : Scan) (next : Cursor → Scan) : Scan :=
  match s.failure with
  | some _ => s
  | none =>
    let t := next s.cursor
    ⟨s.tokens ++ t.tokens, t.cursor, t.failure⟩

end Scan

/-! ### Character classes of the scanner -/

/-- Where a name or an unquoted value ends. -/
def endsName (c : Char) : Bool :=
  CharClass.isMarkupSpace c || c == '>' || c == '<' || c == '/' || CharClass.isQuote c || c == '='

/-- Where the attributes of a start tag end. -/
def endsAttributes (c : Cursor) : Bool :=
  c.atEnd || c.isIn fun x => x == '>' || x == '/' || x == '<'

def Cursor.skipSpace (c : Cursor) : Cursor := c.skipWhile CharClass.isMarkupSpace

def Cursor.skipName (c : Cursor) : Cursor := c.skipWhile fun x => !endsName x

/-- The names of the control flow blocks; an `@` before anything else is text. -/
def blockNames : List String := ["if", "else", "for"]

def beginsBlock (gs : List Glyph) : Bool :=
  match gs with
  | [] => false
  | g :: rest =>
    g.char == '@' &&
      blockNames.contains
        (String.ofList ((rest.takeWhile fun h => CharClass.isBlockName h.char).map Glyph.char))

def beginsTag (gs : List Glyph) : Bool :=
  match gs with
  | g :: h :: _ => g.char == '<' && (CharClass.isLetter h.char || h.char == '/' || h.char == '!')
  | _ => false

def endsText (gs : List Glyph) : Bool :=
  gs.isEmpty || (gs.head?.any fun g => g.char == '\x7d') || beginsTag gs || beginsBlock gs

def beginsInterpolation (gs : List Glyph) : Bool := Cursor.beginsWith ['\x7b', '\x7b'] gs

def upperCode (n : Nat) : Nat := if 0x61 ≤ n && n ≤ 0x7A then n - 32 else n

/-- Whether characters with these codes come next, ASCII case aside, and a name ends after them. -/
def closesName : List Nat → List Glyph → Bool
  | [], gs => !(gs.head?.any fun g => !endsName g.char)
  | _ :: _, [] => false
  | n :: ns, g :: gs => upperCode g.char.toNat == upperCode n && closesName ns gs

/-- Whether the end tag of element `name` begins at these glyphs. Each byte of the name stands for
the character with that code. -/
def beginsEndTag (name : Text) (gs : List Glyph) : Bool :=
  match gs with
  | g :: h :: rest =>
    g.char == '<' && h.char == '/' && closesName (name.map UInt8.toNat) rest
  | _ => false

namespace Scan

variable (options : ScanOptions)

/-- A source text with its line endings treated as the options say. -/
def lineEndings (t : Text) : Text :=
  if options.preserveLineEndings then t else t.normalizeLineEndings

/-- A source text as it is meant: line endings treated and character references replaced. -/
def decoded (t : Text) : Text := Reference.decode (lineEndings options t)

/-- A comment whose `<!--` lies between `start` and `c`. -/
def comment (start c : Cursor) : Scan :=
  let stop := c.seek (Cursor.beginsWith ['-', '-', '>'])
  if stop.atEnd then unexpected [] stop
  else
    let after := stop.advanceBy 3
    done [⟨.comment (lineEndings options (c.textTo stop)), start.spanTo after⟩] after

/-- An end tag whose `</` lies between `start` and `c`. -/
def endTag (start c : Cursor) : Scan :=
  let nameStart := c.skipSpace
  let nameStop := nameStart.skipName
  if nameStart.textTo nameStop == [] then unexpected [] nameStart
  else
    let stop := nameStop.skipSpace
    if stop.isAt '>' then
      done [⟨.tagClose (nameStart.textTo nameStop), start.spanTo stop.advance⟩] stop.advance
    else unexpected [] stop

/-- The value of an attribute, after its `=` and the space behind that. -/
def attrValue (c : Cursor) : Scan :=
  match c.peek? with
  | none => unexpected [] c
  | some q =>
    if CharClass.isQuote q then
      let quote (d : Cursor) : Token := ⟨.attrQuote (Text.ofChar q), d.spanTo d.advance⟩
      let valueStart := c.advance
      let stop := valueStart.skipWhile (· != q)
      if stop.atEnd then unexpected [quote c] stop
      else
        let value := decoded options (valueStart.textTo stop)
        done [quote c, ⟨.attrValue value, valueStart.spanTo stop⟩, quote stop] stop.advance
    else
      let stop := c.skipName
      if c.textTo stop == [] then unexpected [] c
      else done [⟨.attrValue (c.textTo stop), c.spanTo stop⟩] stop

/-- An attribute: a name, and a value if an `=` follows. -/
def attr (c : Cursor) : Scan :=
  let stop := c.skipName
  if c.textTo stop == [] then unexpected [] c
  else
    let name : Token := ⟨.attrName (c.textTo stop), c.spanTo stop⟩
    let next := stop.skipSpace
    if next.isAt '=' then (done [name] next.advance.skipSpace).andThen (attrValue options)
    else done [name] next

/-- The attributes of a start tag and the space around them; `fuel` bounds their number. -/
def attrs : (fuel : Nat) → Cursor → Scan
  | 0, c => done [] c.skipSpace
  | fuel + 1, c =>
    let c := c.skipSpace
    if endsAttributes c then done [] c
    else (attr options c).andThen (attrs fuel)

/-- The `>` or `/>` that ends a start tag. -/
def startTagEnd (c : Cursor) : Scan :=
  if c.isAt '/' then
    if c.advance.isAt '>' then
      done [⟨.tagOpenEndVoid, c.spanTo c.advance.advance⟩] c.advance.advance
    else unexpected [] c.advance
  else if c.isAt '>' then done [⟨.tagOpenEnd, c.spanTo c.advance⟩] c.advance
  else unexpected [] c

/-- The verbatim content of element `name`, up to its end tag or the end of the source. -/
def rawText (name : Text) (c : Cursor) : Scan :=
  let stop := c.seek (beginsEndTag name)
  let content := c.textTo stop
  if content.isEmpty then done [] stop
  else done [⟨.rawText (lineEndings options content), c.spanTo stop⟩] stop

/-- A start tag whose `<` lies between `start` and `c`, with the verbatim content after it if the
element has such. A `<` that cannot start a tag is text. -/
def startTag (start c : Cursor) : Scan :=
  if !c.isIn CharClass.isLetter then done [⟨.text [0x3C], start.spanTo c⟩] c
  else
    let stop := c.skipName
    let name := c.textTo stop
    let opened := (done [⟨.tagOpenStart name, start.spanTo stop⟩] stop).andThen fun c =>
      attrs options c.rest.length c
    opened.andThen fun c =>
      (startTagEnd c).andThen fun d =>
        if !c.isAt '/' && (Tag.ofName name).content == .raw then rawText options name d
        else done [] d

/-- The end of a block parameter: a semicolon or closing parenthesis outside parentheses. -/
def parameterStop (depth : Nat) : List Glyph → Position → Cursor
  | [], p => ⟨[], p⟩
  | g :: gs, p =>
    if depth = 0 ∧ (g.char = ';' ∨ g.char = ')') then ⟨g :: gs, p⟩
    else
      let depth := if g.char = '(' then depth + 1 else if g.char = ')' then depth - 1 else depth
      parameterStop depth gs (p.after g)

/-- The parameters of a block, up to the closing parenthesis; `fuel` bounds their number. -/
def blockParameters : (fuel : Nat) → Cursor → Scan
  | 0, c => done [] c
  | fuel + 1, c =>
    if c.atEnd || c.isAt ')' then done [] c
    else
      let stop := parameterStop 0 c.rest c.position
      let next := if stop.isAt ';' then stop.advance else stop
      (done [⟨.blockParameter (c.textTo stop).trim, c.spanTo stop⟩] next.skipSpace).andThen
        (blockParameters fuel)

/-- The header of a block, from its `@` to its brace. A header that is not complete gives no
tokens. -/
def blockHeader (start : Cursor) : Scan :=
  let nameStop := start.advance.skipWhile CharClass.isBlockName
  let name := start.advance.textTo nameStop
  let incomplete (c : Cursor) : Scan := failed [] c (.incompleteBlock name) start
  let brace (tokens : List Token) (c : Cursor) : Scan :=
    if c.isAt '\x7b' then done (tokens ++ [⟨.blockOpenEnd, c.spanTo c.advance⟩]) c.advance
    else incomplete c
  let opened : Token := ⟨.blockOpenStart name, start.spanTo nameStop⟩
  let c := nameStop.skipSpace
  if c.isAt '(' then
    let first := c.advance.skipSpace
    let parameters := blockParameters first.rest.length first
    let stop := parameters.cursor.skipSpace
    if stop.isAt ')' then brace (opened :: parameters.tokens) stop.advance.skipSpace
    else incomplete stop
  else brace [opened] c

/-- The text between two cursors as a token, unless it is empty. -/
def textToken (c d : Cursor) : List Token :=
  let content := c.textTo d
  if content.isEmpty then [] else [⟨.text (decoded options content), c.spanTo d⟩]

/-- Text up to the next tag or block boundary, with the interpolations in it; `fuel` bounds their
number. -/
def textRun : (fuel : Nat) → Cursor → Scan
  | 0, c => done [] c
  | fuel + 1, c =>
    let stop := c.seek fun gs => endsText gs || beginsInterpolation gs
    let before := textToken options c stop
    if beginsInterpolation stop.rest then
      let inner := stop.advanceBy 2
      let close := inner.seek (Cursor.beginsWith ['\x7d', '\x7d'])
      if close.atEnd then failed before close .unterminatedInterpolation stop
      else
        let after := close.advanceBy 2
        (done (before ++ [⟨.interpolation (inner.textTo close), stop.spanTo after⟩]) after).andThen
          (textRun fuel)
    else done before stop

/-- The construct that comes next. -/
def next (c : Cursor) : Scan :=
  if c.isBefore "<!--" then comment options c (c.advanceBy 4)
  else if c.isBefore "</" then endTag c (c.advanceBy 2)
  else if c.isAt '<' then startTag options c c.advance
  else if beginsBlock c.rest then blockHeader c
  else if c.isAt '\x7d' then done [⟨.blockClose, c.spanTo c.advance⟩] c.advance
  else textRun options (c.rest.length + 1) c

end Scan

/-- The tokens of a source and the problems met on the way. -/
structure TokenStream where
  tokens : List Token
  diagnostics : List Diagnostic

namespace TokenStream

/-- The diagnostic of a scan that failed: it reaches up to where the cursor has come. -/
def diagnosticOf (s : Scan) : List Diagnostic :=
  match s.failure with
  | some f => [⟨f.problem, f.start.spanTo s.cursor⟩]
  | none => []

/-- Where reading goes on after a scan from `c`: a construct that took nothing is passed over by one
character. -/
def resume (c : Cursor) (s : Scan) : Cursor :=
  if s.cursor.position.offset = c.position.offset then c.advance else s.cursor

/-- The tokens from a cursor on; `fuel` bounds the number of constructs. -/
def readFrom (options : ScanOptions) : (fuel : Nat) → Cursor → TokenStream
  | 0, c => ⟨[⟨.eof, c.spanTo c⟩], []⟩
  | fuel + 1, c =>
    if c.atEnd then ⟨[⟨.eof, c.spanTo c⟩], []⟩
    else
      let s := Scan.next options c
      let rest := readFrom options fuel (resume c s)
      ⟨s.tokens ++ rest.tokens, diagnosticOf s ++ rest.diagnostics⟩

def ofText (options : ScanOptions) (t : Text) : TokenStream :=
  readFrom options t.glyphs.length (.ofText t)

end TokenStream

end Stencil.Markup
