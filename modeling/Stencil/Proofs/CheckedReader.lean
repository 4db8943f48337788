import Stencil.Markup.Scan

/-!
# A reader with checks

Scanning says at once where a construct ends. This reader goes there one character at a time, keeps the token
it has begun on the way, and checks what it relies on: it never moves on at the end of the source, it ends only
a token that it has begun, and no loop goes round more often than there are characters left. A check that does
not hold is a trap, from which there is no way back. A construct that fails is given up, and reading goes on
where the cursor has come to.
-/

namespace Stencil.Markup

/-- A check that does not hold. -/
inductive Trap where
  | advancedAtEnd
  | endedUnbegun
  | looped
deriving DecidableEq, Repr

/-- Why reading breaks off within a construct. -/
inductive Interrupt where
  | failure (f : Failure)
  | trap (t : Trap)

/-- A source that is being read. A token that has been begun is known by its start, and by its kind: what it
will be once its text is known. -/
structure Reader where
  cursor : Cursor
  start : Option Cursor
  kind : Option (Text → Lexeme)
  tokens : List Token
  diagnostics : List Diagnostic

def Reader.ofText (t : Text) : Reader := ⟨.ofText t, none, none, [], []⟩

abbrev Reading := EStateM Interrupt Reader

namespace Reading

/-! ### Moving -/

def cursor : Reading Cursor := return (← get).cursor

/-- The cursor after the next character, if there is one. -/
def step (c : Cursor) : Reading Cursor :=
  if c.atEnd then throw (.trap .advancedAtEnd) else return c.advance

def advance : Reading Unit := do
  let c ← step (← cursor)
  modify ({ · with cursor := c })

def advanceBy : Nat → Reading Unit
  | 0 => return ()
  | n + 1 => do
    advance
    advanceBy n

/-- Goes round as long as there is more to do. -/
def loop {σ : Type} (more : σ → Reading Bool) (body : σ → Reading σ) : (fuel : Nat) → σ → Reading σ
  | 0, _ => throw (.trap .looped)
  | fuel + 1, x => do
    if ← more x then
      loop more body fuel (← body x)
    else
      return x

/-- Goes round no more often than there are characters left. -/
def repeatWhile {σ : Type} (more : σ → Reading Bool) (body : σ → Reading σ) (x : σ) : Reading σ := do
  loop more body ((← cursor).rest.length + 1) x

/-! ### Tokens -/

def begin (kind : Text → Lexeme) (start : Cursor) : Reading Unit :=
  modify ({ · with start := some start, kind := some kind })

/-- The token that was begun is given up. -/
def drop : Reading Unit := modify ({ · with start := none, kind := none })

def finishAt (part : Text) (stop : Cursor) : Reading Unit := do
  let r ← get
  match r.start, r.kind with
  | some start, some kind =>
    let token : Token := ⟨kind part, start.spanTo stop⟩
    set { r with start := none, kind := none, tokens := r.tokens ++ [token] }
  | _, _ => throw (.trap .endedUnbegun)

def finish (part : Text) : Reading Unit := do
  finishAt part (← cursor)

/-! ### Characters that are tried or required -/

def fail {α : Type} (problem : Problem) (start : Cursor) : Reading α :=
  throw (Interrupt.failure ⟨problem, start⟩)

def unexpected {α : Type} (start : Cursor) : Reading α := do
  fail (.unexpectedChar (← cursor).peek?) start

def attemptChar (x : Char) : Reading Bool := do
  if (← cursor).isAt x then
    advance
    return true
  else
    return false

def requireChar (x : Char) : Reading Unit := do
  let start ← cursor
  if ← attemptChar x then return () else unexpected start

def peekChars : List Char → Cursor → Reading Bool
  | [], _ => return true
  | x :: xs, c => do
    if c.isAt x then
      peekChars xs (← step c)
    else
      return false

def attemptChars (s : List Char) : Reading Bool := do
  if ← peekChars s (← cursor) then
    advanceBy s.length
    return true
  else
    return false

def requireChars (s : List Char) : Reading Unit := do
  let start ← cursor
  if ← attemptChars s then return () else unexpected start

def skipUntil (stop : Option Char → Bool) : Reading Unit :=
  repeatWhile (fun _ => return !stop (← cursor).peek?) (fun _ => advance) ()

def isNotSpace (x : Option Char) : Bool := !x.any CharClass.isMarkupSpace || x.isNone

def isNameEnd (x : Option Char) : Bool := x.any endsName || x.isNone

def skipSpace : Reading Unit := skipUntil isNotSpace

def name : Reading Text := do
  let start ← cursor
  skipUntil isNameEnd
  let stop ← cursor
  if stop.position.offset - start.position.offset < 1 then
    unexpected start
  else
    return start.textTo stop

/-- Goes on to where something is found, and fails if that is nowhere. -/
def seek (found : Cursor → Reading Bool) (missing : Cursor → Failure) : Reading Unit :=
  repeatWhile (fun _ => return !(← found (← cursor)))
    (fun _ => do
      let c ← cursor
      if c.atEnd then throw (.failure (missing c)) else advance) ()

/-! ### What comes next -/

def closesName : List Nat → Cursor → Reading Bool
  | [], c => return isNameEnd c.peek?
  | n :: ns, c => do
    if c.isIn fun x => upperCode x.toNat == upperCode n then
      closesName ns (← step c)
    else
      return false

def isAtEndTag (name : Text) (c : Cursor) : Reading Bool := do
  if c.isAt '<' then
    let d ← step c
    if d.isAt '/' then
      closesName (name.map UInt8.toNat) (← step d)
    else
      return false
  else
    return false

def isAtTag (c : Cursor) : Reading Bool := do
  if c.isAt '<' then
    let d ← step c
    return d.isIn fun x => CharClass.isLetter x || x == '/' || x == '!'
  else
    return false

def isAtBlock (c : Cursor) : Reading Bool := do
  if c.isAt '@' then
    let start ← step c
    let stop ← repeatWhile (fun d => return d.isIn CharClass.isBlockName) step start
    let name := (start.rest.take (start.rest.length - stop.rest.length)).map Glyph.char
    return blockNames.contains (String.ofList name)
  else
    return false

def isAtTextEnd (c : Cursor) : Reading Bool := do
  if c.atEnd || c.isAt '\x7d' then return true
  else if ← isAtTag c then return true
  else isAtBlock c

/-! ### Constructs -/

variable (options : ScanOptions)

def comment (start : Cursor) : Reading Unit := do
  begin .comment start
  let content ← cursor
  seek (peekChars ['-', '-', '>']) fun c => ⟨.unexpectedChar none, c⟩
  let stop ← cursor
  requireChars ['-', '-', '>']
  finish (Scan.lineEndings options (content.textTo stop))

def endTag (start : Cursor) : Reading Unit := do
  begin .tagClose start
  skipSpace
  let tag ← name
  skipSpace
  requireChar '>'
  finish tag

def quote (q : Char) : Reading Unit := do
  begin .attrQuote (← cursor)
  requireChar q
  finish (Text.ofChar q)

def quotedValue (q : Char) : Reading Unit := do
  quote q
  let start ← cursor
  seek (fun c => return c.isAt q) fun c => ⟨.unexpectedChar none, c⟩
  let stop ← cursor
  begin .attrValue start
  finish (Scan.decoded options (start.textTo stop))
  quote q

def unquotedValue : Reading Unit := do
  let start ← cursor
  let value ← name
  begin .attrValue start
  finish value

def attrValue : Reading Unit := do
  match (← cursor).peek? with
  | some q => if CharClass.isQuote q then quotedValue options q else unquotedValue
  | none => unquotedValue

def attrName : Reading Unit := do
  begin .attrName (← cursor)
  let attr ← name
  finish attr

def attr : Reading Unit := do
  if (← cursor).isIn CharClass.isQuote then
    unexpected (← cursor)
  else
    attrName
    skipSpace
    if ← attemptChar '=' then
      skipSpace
      attrValue options
    else
      return ()

def attrs : Reading Unit := do
  skipSpace
  repeatWhile (fun _ => return !endsAttributes (← cursor))
    (fun _ => do
      attr options
      skipSpace) ()

/-- The end of a start tag, and whether the element takes no content. -/
def startTagEnd : Reading Bool := do
  let start ← cursor
  if ← attemptChar '/' then
    begin (fun _ => .tagOpenEndVoid) start
    requireChar '>'
    finish []
    return true
  else
    begin (fun _ => .tagOpenEnd) start
    requireChar '>'
    finish []
    return false

def rawText (name : Text) : Reading Unit := do
  let start ← cursor
  begin .rawText start
  repeatWhile
    (fun _ => do
      let c ← cursor
      if c.atEnd then return false else return !(← isAtEndTag name c))
    (fun _ => advance) ()
  let content := start.textTo (← cursor)
  if content.isEmpty then drop else finish (Scan.lineEndings options content)

def startTag (start : Cursor) : Reading Unit := do
  if (← cursor).isIn CharClass.isLetter then
    begin .tagOpenStart start
    let tag ← name
    finish tag
    attrs options
    let selfClosing ← startTagEnd
    if !selfClosing && (Tag.ofName tag).content == .raw then rawText options tag else return ()
  else
    begin .text start
    finish [0x3C]

/-- Whether a parameter ends here, at this depth of parentheses. -/
def endsParameter (depth : Nat) (c : Cursor) : Bool := c.atEnd || depth == 0 && (c.isAt ';' || c.isAt ')')

def parameter : Reading Unit := do
  let start ← cursor
  begin .blockParameter start
  let _ ← repeatWhile (fun depth => return !endsParameter depth (← cursor))
    (fun depth => do
      let c ← cursor
      advance
      return if c.isAt '(' then depth + 1 else if c.isAt ')' then depth - 1 else depth) 0
  finish (start.textTo (← cursor)).trim

def blockParameters : Reading Unit :=
  repeatWhile (fun _ => return !((← cursor).atEnd || (← cursor).isAt ')'))
    (fun _ => do
      parameter
      let _ ← attemptChar ';'
      skipSpace) ()

/-- A character that a block header needs. Without it the tokens of the header are given up. -/
def needChar (x : Char) (name : Text) (start : Cursor) (mark : Nat) : Reading Unit := do
  if ← attemptChar x then
    return ()
  else
    modify fun r => { r with tokens := r.tokens.take mark }
    fail (.incompleteBlock name) start

def parentheses (name : Text) (start : Cursor) (mark : Nat) : Reading Unit := do
  if ← attemptChar '(' then
    skipSpace
    blockParameters
    skipSpace
    needChar ')' name start mark
    skipSpace
  else
    return ()

def blockHeader (start : Cursor) : Reading Unit := do
  let mark := (← get).tokens.length
  begin .blockOpenStart start
  advance
  let nameStart ← cursor
  skipUntil fun x => !x.any CharClass.isBlockName
  let name := nameStart.textTo (← cursor)
  finish name
  skipSpace
  parentheses name start mark
  begin (fun _ => .blockOpenEnd) (← cursor)
  needChar '\x7b' name start mark
  finish []

def blockClose (start : Cursor) : Reading Unit := do
  begin (fun _ => .blockClose) start
  finish []

/-- The text between two cursors, unless it is empty. -/
def endText (start stop : Cursor) : Reading Unit :=
  let content := start.textTo stop
  if content.isEmpty then drop else finishAt (Scan.decoded options content) stop

def interpolation (start : Cursor) : Reading Unit := do
  begin .interpolation start
  let inner ← cursor
  seek (peekChars ['\x7d', '\x7d']) fun _ => ⟨.unterminatedInterpolation, start⟩
  let stop ← cursor
  requireChars ['\x7d', '\x7d']
  finish (inner.textTo stop)

/-- One more character of a text that began at `start`, or an interpolation and a new beginning. -/
def textStep (start : Cursor) : Reading Cursor := do
  let current ← cursor
  if ← attemptChars ['\x7b', '\x7b'] then
    endText options start current
    interpolation current
    let next ← cursor
    begin .text next
    return next
  else
    advance
    return start

def textRun : Reading Unit := do
  let first ← cursor
  begin .text first
  let last ← repeatWhile (fun _ => return !(← isAtTextEnd (← cursor))) (textStep options) first
  endText options last (← cursor)

def next (start : Cursor) : Reading Unit := do
  if ← attemptChar '<' then
    if ← attemptChars ['!', '-', '-'] then comment options start
    else if ← attemptChar '/' then endTag start
    else startTag options start
  else if ← isAtBlock (← cursor) then blockHeader start
  else if ← attemptChar '\x7d' then blockClose start
  else textRun options

/-! ### Whole sources -/

/-- A failure is noted, and the token that was begun is given up. A trap stays one. -/
def handle : Interrupt → Reading Unit
  | .failure f => modify fun r =>
    { r with
      start := none, kind := none,
      diagnostics := r.diagnostics ++ [⟨f.problem, f.start.spanTo r.cursor⟩] }
  | .trap t => throw (.trap t)

/-- Moves on if a construct took nothing. -/
def moveOn (start : Cursor) : Reading Unit := do
  let c ← cursor
  if c.position.offset == start.position.offset && !c.atEnd then advance else return ()

def round : Reading Unit := do
  let start ← cursor
  tryCatch (next options start) handle
  moveOn start

/-- Everything up to the end mark, in no more rounds than given. -/
def all (rounds : Nat) : Reading Unit := do
  loop (fun _ => return !(← cursor).atEnd) (fun _ => round options) (rounds + 1) ()
  begin (fun _ => .eof) (← cursor)
  finish []

end Reading

end Stencil.Markup
