import Stencil.Proofs.InertBlanks
import Stencil.Proofs.LineEndings

/-!
# The names and paths of a template

What a source calls its elements and attributes never holds a blank, a line feed, an equals sign or a `<`,
its blocks have the names of control flow, the ASCII bytes of a path are those of its segments' characters,
and a loop binds plain names. None of it is checked when a template is compiled: it is so because names and
paths come from the scanner and from reading paths. So it is followed through all steps, from tokens to the
tree and the template.
-/

namespace Stencil

/-- A text that is not empty and holds no space, no line feed, no equals sign and no `<`. -/
structure Text.IsUnbroken (t : Text) : Prop where
  ne_nil : t ≠ []
  bytes : ∀ b ∈ t, b ≠ 0x20 ∧ b ≠ 0x0A ∧ b ≠ 0x3D ∧ b ≠ 0x3C

/-- A text of ASCII letters, digits, `_` and `$`. -/
def Text.IsVariable (t : Text) : Prop :=
  ∀ b ∈ t, b < 0x80 ∧ CharClass.isVariable (Template.byteChar b) = true

/-- A path whose segments are not empty and have no other ASCII bytes than those of identifiers. -/
def Path.IsLegible (p : Path) : Prop :=
  ∀ s ∈ p, s ≠ [] ∧ ∀ b ∈ s, b < 0x80 → CharClass.isIdentifier (Template.byteChar b) = true

theorem Markup.IsName.isUnbroken {t : Text} (ht : Markup.IsName t) : t.IsUnbroken := by
  refine ⟨ht.1, ?_⟩
  have hname : ∀ b ∈ t, b < 0x80 → Markup.endsName (Template.byteChar b) = false := by
    intro b hb hlow
    exact ht.2 _ (List.mem_map_of_mem (Text.ascii_mem_glyphs hlow hb))
  intro b hb
  refine ⟨?_, ?_, ?_, ?_⟩
  all_goals
    rintro rfl
    exact absurd (hname _ hb (by decide)) (by decide)

/-! ### Paths -/

namespace Path

theorem firstFault?_none {path : Text} {segments : List Text} {position : Nat}
    (hnone : firstFault? path position segments = none) : IsLegible segments := by
  induction segments generalizing position with
  | nil =>
    intro s hs
    cases hs
  | cons segment rest ih =>
    rw [firstFault?] at hnone
    split at hnone
    · cases hnone
    · rename_i hne
      split at hnone
      · cases hnone
      · rename_i hfind
        intro s hs
        rcases List.mem_cons.mp hs with rfl | hs
        · refine ⟨fun heq => hne (by simp [heq]), ?_⟩
          intro b hb hlow
          have hchar := List.find?_eq_none.mp hfind (Template.byteChar b)
            (List.mem_map_of_mem (Text.ascii_mem_glyphs hlow hb))
          have hcode : (Template.byteChar b).toNat ≤ 127 := by
            rw [Template.byteChar_toNat]
            exact Nat.le_of_lt_succ (UInt8.lt_iff_toNat_lt.mp hlow)
          simpa [isDisallowed, hcode] using hchar
        · exact ih hnone s hs

/-- A path that was read is legible, and written as it stands in the source between blanks. -/
theorem parse_spec {source : Text} {p : Path} (hparse : parse source = .ok p) :
    p.IsLegible ∧ (source.isBlank = false → p.toText = source.trim) := by
  rw [parse] at hparse
  split at hparse
  · rename_i hroot
    obtain rfl := Except.ok.inj hparse
    refine ⟨fun s hs => absurd hs List.not_mem_nil, ?_⟩
    intro hblank
    rcases Bool.or_eq_true_iff.mp hroot with hempty | hdot
    · rw [Text.isBlank, hempty] at hblank
      cases hblank
    · rw [beq_iff_eq.mp hdot]
      rfl
  · split at hparse
    · cases hparse
    · rename_i hnone
      obtain rfl := Except.ok.inj hparse
      refine ⟨firstFault?_none hnone, fun _ => ?_⟩
      obtain ⟨part, parts, hsplit⟩ := Text.exists_splitOn 0x2E source.trim
      have hjoin := Text.join_splitOn 0x2E source.trim
      rw [hsplit] at hjoin ⊢
      exact hjoin

end Path

/-! ### Tokens -/

namespace Markup

variable {options : ScanOptions} {source : Text}

/-- The name of a control flow block. -/
def IsBlockName (name : Text) : Prop := ∃ s ∈ blockNames, name = Text.ofString s

/-- A lexeme that names an element, an attribute or a block does so by a name. -/
def Lexeme.IsNamed : Lexeme → Prop
  | .tagOpenStart name => IsName name
  | .attrName name => IsName name
  | .blockOpenStart name => IsBlockName name
  | _ => True

/-- The names that a scan gave are names. -/
def Scan.Names (s : Scan) : Prop := ∀ t ∈ s.tokens, t.lexeme.IsNamed

theorem Cursor.isName_skipName {c : Cursor} (hc : c.rest <:+ source.glyphs)
    (hne : c.textTo c.skipName ≠ []) : IsName (c.textTo c.skipName) := by
  obtain ⟨gs, hread, hgs⟩ := Cursor.exists_skipName c
  refine ⟨hne, ?_⟩
  rw [hread.textTo, hread.chars hc]
  intro x hx
  obtain ⟨g, hg, rfl⟩ := List.mem_map.mp hx
  exact hgs g hg

/-- A letter begins a name. -/
theorem Cursor.skipName_ne_nil {c : Cursor} (hc : c.rest <:+ source.glyphs)
    (hletter : c.isIn CharClass.isLetter = true) : c.textTo c.skipName ≠ [] := by
  obtain ⟨gs, hread, -, hstop⟩ := Cursor.exists_skipWhile (fun x => !endsName x) c
  intro hempty
  change c.textTo (c.skipWhile _) = [] at hempty
  rw [hread.textTo] at hempty
  obtain rfl := hread.eq_nil hc hempty
  rw [hread.eq_of_nil, Cursor.isIn] at hstop
  rw [Cursor.isIn] at hletter
  cases hpeek : c.peek? with
  | none => simp [hpeek] at hletter
  | some x =>
    simp only [hpeek, Option.any_some, Bool.not_eq_false'] at hletter hstop
    -- No letter ends a name: both classes are those of ASCII codes.
    have hcode : 65 ≤ x.toNat ∧ x.toNat ≤ 90 ∨ 97 ≤ x.toNat ∧ x.toNat ≤ 122 := by
      simp only [CharClass.isLetter, Bool.or_eq_true, Bool.and_eq_true, decide_eq_true_eq] at hletter
      rcases hletter with hletter | hletter
      · exact .inr hletter
      · exact .inl hletter
    have hall : ∀ n < 123, (65 ≤ n ∧ n ≤ 90 ∨ 97 ≤ n ∧ n ≤ 122) → endsName (Char.ofNat n) = false := by
      decide
    have hname := hall x.toNat (by omega) hcode
    rw [Char.ofNat_toNat, hstop] at hname
    cases hname

theorem Cursor.textTo_skipWhile (p : Char → Bool) (c : Cursor) :
    c.textTo (c.skipWhile p) = Text.ofGlyphs (c.rest.takeWhile fun g => p g.char) := by
  rw [textTo, take_skipWhile]

/-- The text of characters that spell the name of a block is that name. -/
theorem isBlockName_of_chars {gs : List Glyph} (hgs : ∀ g ∈ gs, g ∈ source.glyphs)
    (hname : blockNames.contains (String.ofList (gs.map Glyph.char)) = true) :
    IsBlockName (Text.ofGlyphs gs) := by
  obtain ⟨s, hs, hchars⟩ : ∃ s ∈ blockNames, gs.map Glyph.char = s.toList := by
    refine ⟨_, List.contains_iff_mem.mp hname, ?_⟩
    rw [String.toList_ofList]
  refine ⟨s, hs, ?_⟩
  have hspelled : Text.IsAscii (Text.ofString s) ∧
      s.toList = (Text.ofString s).map fun b => Char.ofNat b.toNat := by
    simp only [blockNames, List.mem_cons, List.not_mem_nil, or_false] at hs
    rcases hs with rfl | rfl | rfl <;> decide
  rw [Text.eq_map_ascii hspelled.1 hgs (hchars.trans hspelled.2), Text.ofGlyphs_ascii]

namespace Scan

variable {start c : Cursor}

theorem Names.andThen {s : Scan} {next : Cursor → Scan} (hs : s.Names)
    (hnext : (next s.cursor).Names) : (s.andThen next).Names := by
  rw [Scan.andThen]
  cases hfailure : s.failure with
  | some f => exact hs
  | none =>
    intro t ht
    rcases List.mem_append.mp ht with ht | ht
    · exact hs t ht
    · exact hnext t ht

theorem comment_names : (comment options start c).Names := by
  rw [comment]
  dsimp only
  split <;> simp [Names, unexpected, failed, done, Lexeme.IsNamed]

theorem endTag_names : (endTag start c).Names := by
  rw [endTag]
  dsimp only
  split
  · simp [Names, unexpected, failed]
  · split <;> simp [Names, unexpected, failed, done, Lexeme.IsNamed]

theorem attrValue_names : (attrValue options c).Names := by
  rw [attrValue]
  split
  · simp [Names, unexpected, failed]
  · dsimp only
    split
    · split <;> simp [Names, unexpected, failed, done, Lexeme.IsNamed]
    · split <;> simp [Names, unexpected, failed, done, Lexeme.IsNamed]

theorem attr_names (hc : c.rest <:+ source.glyphs) : (attr options c).Names := by
  rw [attr]
  dsimp only
  split
  · simp [Names, unexpected, failed]
  · rename_i hne
    have hname : IsName (c.textTo c.skipName) :=
      Cursor.isName_skipName hc fun heq => hne (beq_iff_eq.mpr heq)
    split
    · refine Names.andThen ?_ attrValue_names
      intro t ht
      rw [List.mem_singleton.mp ht]
      exact hname
    · intro t ht
      rw [List.mem_singleton.mp ht]
      exact hname

theorem attrs_names (fuel : Nat) (hc : c.rest <:+ source.glyphs) : (attrs options fuel c).Names := by
  induction fuel generalizing c with
  | zero => simp [attrs, Names, done]
  | succ fuel ih =>
    obtain ⟨space, hspace, -⟩ := Cursor.exists_skipSpace c
    have hcursor := hspace.isSuffix hc
    rw [attrs]
    split
    · simp [Names, done]
    · obtain ⟨gs, hread⟩ := (@attr_lays options source none _ hcursor).onward
      exact (attr_names hcursor).andThen (ih (hread.isSuffix hcursor))

theorem startTag_names (hc : c.rest <:+ source.glyphs) : (startTag options start c).Names := by
  rw [startTag]
  split
  · simp [Names, done, Lexeme.IsNamed]
  · rename_i hletter
    obtain ⟨name, hname, -⟩ := Cursor.exists_skipName c
    have hletter : c.isIn CharClass.isLetter = true := by simpa using hletter
    have hopened : (done [⟨.tagOpenStart (c.textTo c.skipName), start.spanTo c.skipName⟩]
        c.skipName).Names := by
      intro t ht
      rw [List.mem_singleton.mp ht]
      exact Cursor.isName_skipName hc (Cursor.skipName_ne_nil hc hletter)
    dsimp only
    refine (hopened.andThen (attrs_names _ (hname.isSuffix hc))).andThen (Names.andThen ?_ ?_)
    · rw [startTagEnd]
      split
      · split <;> simp [Names, unexpected, failed, done, Lexeme.IsNamed]
      · split <;> simp [Names, unexpected, failed, done, Lexeme.IsNamed]
    · split
      · rw [rawText]
        split <;> simp [Names, done, Lexeme.IsNamed]
      · simp [Names, done]

theorem blockParameters_names (fuel : Nat) : (blockParameters fuel c).Names := by
  induction fuel generalizing c with
  | zero => simp [blockParameters, Names, done]
  | succ fuel ih =>
    rw [blockParameters]
    split
    · simp [Names, done]
    · exact Names.andThen (by simp [Names, done, Lexeme.IsNamed]) ih

theorem blockHeader_names (hc : c.rest <:+ source.glyphs) (hblock : beginsBlock c.rest = true) :
    (blockHeader c).Names := by
  have hname : IsBlockName (c.advance.textTo (c.advance.skipWhile CharClass.isBlockName)) := by
    cases hrest : c.rest with
    | nil =>
      rw [hrest] at hblock
      cases hblock
    | cons g rest =>
      rw [hrest] at hblock
      have hadvance : c.advance.rest = rest := by rw [Cursor.advance, hrest]
      rw [Cursor.textTo_skipWhile, hadvance]
      refine @isBlockName_of_chars source _ ?_ (Bool.and_eq_true_iff.mp hblock).2
      intro h hh
      apply hc.mem
      rw [hrest]
      exact List.mem_cons_of_mem g ((List.takeWhile_prefix _).mem hh)
  have hparameters := @blockParameters_names
  rw [blockHeader]
  dsimp only
  split
  · split
    · split
      · intro t ht
        rcases List.mem_append.mp ht with ht | ht
        · rcases List.mem_cons.mp ht with rfl | ht
          · exact hname
          · exact hparameters _ t ht
        · rw [List.mem_singleton.mp ht]
          trivial
      · simp [Names, failed]
    · simp [Names, failed]
  · split
    · exact List.forall_mem_cons.mpr ⟨hname, List.forall_mem_singleton.mpr trivial⟩
    · simp [Names, failed]

theorem textRun_names (fuel : Nat) : (textRun options fuel c).Names := by
  have htoken : ∀ c d : Cursor, ∀ t ∈ textToken options c d, t.lexeme.IsNamed := by
    intro c d t ht
    rw [textToken] at ht
    split at ht
    · cases ht
    · rw [List.mem_singleton.mp ht]
      trivial
  induction fuel generalizing c with
  | zero => simp [textRun, Names, done]
  | succ fuel ih =>
    rw [textRun]
    dsimp only
    split
    · split
      · exact htoken _ _
      · refine Names.andThen ?_ ih
        intro t ht
        rcases List.mem_append.mp ht with ht | ht
        · exact htoken _ _ t ht
        · rw [List.mem_singleton.mp ht]
          trivial
    · exact htoken _ _

theorem next_names (hc : c.rest <:+ source.glyphs) : (next options c).Names := by
  rw [next]
  split
  · exact comment_names
  split
  · exact endTag_names
  split
  · rename_i hat
    obtain ⟨g, -, hmark⟩ := Cursor.exists_of_isAt hat
    exact startTag_names (hmark.isSuffix hc)
  split
  · rename_i hblock
    exact blockHeader_names hc hblock
  split
  · simp [Names, done, Lexeme.IsNamed]
  · exact textRun_names _

end Scan

theorem TokenStream.readFrom_named (fuel : Nat) {c : Cursor} (hc : c.rest <:+ source.glyphs) :
    ∀ t ∈ (readFrom options fuel c).tokens, t.lexeme.IsNamed := by
  intro t ht
  rcases exists_next_of_mem_readFrom fuel hc ht with heof | ⟨d, hd, ht⟩
  · rw [heof]
    trivial
  · exact Scan.next_names hd t ht

/-! ### Trees -/

mutual

/-- The elements and attributes in a node are called by names. -/
def Node.IsNamed : Node → Prop
  | .element name attrs children _ _ =>
    IsName name ∧ (∀ a ∈ attrs, IsName a.name) ∧ NamedIn children
  | .text .. => True
  | .comment .. => True
  | .block _ _ children _ => NamedIn children

/-- The elements and attributes in some nodes are called by names. -/
def NamedIn : List Node → Prop
  | [] => True
  | node :: rest => node.IsNamed ∧ NamedIn rest

end

theorem namedIn_iff {nodes : List Node} : NamedIn nodes ↔ ∀ node ∈ nodes, node.IsNamed := by
  induction nodes with
  | nil => simp [NamedIn]
  | cons node rest ih => simp [NamedIn, ih]

def Container.IsNamed : Container → Prop
  | .element name attrs _ => IsName name ∧ ∀ a ∈ attrs, IsName a.name
  | .block .. => True

theorem closes_named : Closes Container.IsNamed Node.IsNamed := by
  intro c hc children hchildren close
  cases c with
  | element name attrs startTag => exact ⟨hc.1, hc.2, namedIn_iff.mpr hchildren⟩
  | block name parameters nameSpan header => exact namedIn_iff.mpr hchildren

theorem Piece.takeAttrs_named {tokens : List Token} (htokens : ∀ t ∈ tokens, t.lexeme.IsNamed) :
    ∀ a ∈ (takeAttrs tokens).1, IsName a.name := by
  fun_induction takeAttrs tokens with
  | case1 n s _ _ _ _ _ _ rest found ih
  | case2 n s _ _ _ _ rest _ found ih
  | case3 n s _ _ _ _ rest found ih
  | case4 n s _ _ rest _ _ _ found ih
  | case5 n s _ _ rest found ih
  | case6 n s rest _ _ _ _ _ found ih =>
    intro a ha
    rcases List.mem_cons.mp ha with rfl | ha
    · exact htokens ⟨.attrName n, s⟩ List.mem_cons_self
    · exact ih (fun t ht => htokens t (by simp [ht])) a ha
  | case7 =>
    intro a ha
    cases ha

theorem Tree.ofText_named (options : ScanOptions) (t : Text) :
    NamedIn (Tree.ofText options t).nodes := by
  apply namedIn_iff.mpr
  refine Tree.ofTokens_good closes_named fun piece hpiece => ?_
  have htokens := @TokenStream.readFrom_named options t t.glyphs.length (.ofText t) List.suffix_rfl
  have hfrom := Piece.isFrom_of_mem_gather piece hpiece
  cases piece with
  | startTag name attrs ending span =>
    obtain ⟨⟨token, htoken, hlexeme⟩, others, hothers, rfl⟩ := hfrom
    have hname : IsName name := by
      have hnamed := htokens token htoken
      rwa [hlexeme] at hnamed
    have hattrs := Piece.takeAttrs_named fun token htoken => htokens token (hothers.mem htoken)
    rw [Piece.Fits]
    split
    · exact ⟨hname, hattrs⟩
    · exact ⟨hname, hattrs, trivial⟩
  | text first rest => exact fun _ _ => trivial
  | endTag | comment | blockOpen | blockClose => trivial

theorem outlasts_named : Outlasts Node.IsNamed where
  element hnode :=
    ⟨namedIn_iff.mp hnode.2.2, fun hkept => ⟨hnode.1, hnode.2.1, namedIn_iff.mpr hkept⟩⟩
  text _ := trivial
  block hnode := ⟨namedIn_iff.mp hnode, namedIn_iff.mpr⟩

theorem removeBlanks_named {nodes : List Node} (hnodes : NamedIn nodes) :
    NamedIn (removeBlanks nodes) :=
  namedIn_iff.mpr (outlasts_named.nodes (namedIn_iff.mp hnodes))

end Markup

/-! ### Loops -/

namespace Template

namespace LoopHeader

variable {source : Text} {gs rest : List Glyph} {name : Text}

theorem takeName?_spec (hgs : ∀ g ∈ gs, g ∈ source.glyphs) (htake : takeName? gs = some (name, rest)) :
    name.IsVariable ∧ ∀ g ∈ rest, g ∈ source.glyphs := by
  cases gs with
  | nil => cases htake
  | cons g gs =>
    rw [takeName?] at htake
    split at htake
    · rename_i hstart
      obtain ⟨rfl, rfl⟩ := Prod.mk.inj (Option.some.inj htake)
      constructor
      · intro b hb
        obtain ⟨h, hh, hbytes⟩ := List.mem_flatMap.mp hb
        have hvariable : h ∈ source.glyphs ∧ CharClass.isVariable h.char = true := by
          rcases List.mem_cons.mp hh with rfl | hh
          · exact ⟨hgs h List.mem_cons_self, by simp [CharClass.isVariable, hstart]⟩
          · exact ⟨hgs h (List.mem_cons_of_mem g ((List.takeWhile_prefix _).mem hh)),
              List.all_eq_true.mp List.all_takeWhile h hh⟩
        have hcode := toNat_lt_of_isVariable hvariable.2
        obtain ⟨c, -, rfl⟩ := Text.ascii_of_mem_glyphs hvariable.1 hcode
        obtain rfl := List.mem_singleton.mp hbytes
        change (byteChar b).toNat < 0x80 at hcode
        rw [byteChar_toNat] at hcode
        exact ⟨UInt8.lt_iff_toNat_lt.mpr hcode, hvariable.2⟩
      · intro h hh
        exact hgs h (List.mem_cons_of_mem g ((List.dropWhile_suffix _).mem hh))
    · cases htake

theorem takeKey?_spec (hgs : ∀ g ∈ gs, g ∈ source.glyphs) (htake : takeKey? gs = some (name, rest)) :
    name.IsVariable ∧ ∀ g ∈ rest, g ∈ source.glyphs := by
  rw [takeKey?] at htake
  split at htake
  · rename_i later hcomma
    refine takeName?_spec ?_ htake
    intro g hg
    apply hgs g
    apply (List.dropWhile_suffix isSpace).mem
    rw [hcomma]
    exact List.mem_cons_of_mem _ ((List.dropWhile_suffix _).mem hg)
  · cases htake

theorem parse?_spec {header : LoopHeader} (hparse : parse? source = some header) :
    header.value.IsVariable ∧ ∀ key ∈ header.key, key.IsVariable := by
  rw [parse?] at hparse
  split at hparse
  · cases hparse
  · rename_i value rest hvalue
    obtain ⟨hname, hrest⟩ := takeName?_spec (fun g hg => (List.dropWhile_suffix _).mem hg) hvalue
    split at hparse
    · rename_i key later hkey
      obtain ⟨c, -, rfl⟩ := Option.map_eq_some_iff.mp hparse
      refine ⟨hname, ?_⟩
      rintro k hk
      obtain rfl := Option.some.inj hk
      exact (takeKey?_spec hrest hkey).1
    · obtain ⟨c, -, rfl⟩ := Option.map_eq_some_iff.mp hparse
      exact ⟨hname, fun k hk => absurd hk (by simp)⟩

end LoopHeader

theorem isVariable_nil : Text.IsVariable [] := by
  intro b hb
  cases hb

theorem nameOr_isVariable {default name : Text} (hdefault : default.IsVariable)
    (hname : name.IsVariable) : (nameOr default name).IsVariable := by
  rw [nameOr]
  split
  · exact hdefault
  · exact hname

theorem isVariable_defaultNames :
    Text.IsVariable defaultKeyName ∧ Text.IsVariable defaultValueName := by
  have hkey : defaultKeyName.all (fun b => b < 0x80 && CharClass.isVariable (byteChar b)) = true := by
    decide
  have hvalue : defaultValueName.all (fun b => b < 0x80 && CharClass.isVariable (byteChar b)) =
      true := by decide
  constructor
  · intro b hb
    simpa using List.all_eq_true.mp hkey b hb
  · intro b hb
    simpa using List.all_eq_true.mp hvalue b hb

/-- A loop over a legible path that binds plain names. -/
structure Loop.IsLegible (l : Loop) : Prop where
  collection : l.collection.IsLegible
  key : l.key.IsVariable
  value : l.value.IsVariable

theorem loopOver_legible {source key value : Text} {l : Loop} (hkey : key.IsVariable)
    (hvalue : value.IsVariable) (hloop : loopOver source key value = .ok l) : l.IsLegible := by
  rw [loopOver] at hloop
  split at hloop
  · cases hloop
  · split at hloop
    · cases hloop
    · rename_i path hpath
      obtain rfl := Except.ok.inj hloop
      exact ⟨(Path.parse_spec hpath).1, hkey, hvalue⟩

theorem loopOfText_legible {t : Text} {l : Loop} (hloop : loopOfText t = .ok l) : l.IsLegible := by
  rw [loopOfText] at hloop
  split at hloop
  · rename_i header hheader
    obtain ⟨hvalue, hkey⟩ := LoopHeader.parse?_spec hheader
    split at hloop
    · cases hloop
    · refine loopOver_legible ?_ hvalue hloop
      cases hgiven : header.key with
      | none => exact isVariable_nil
      | some key => exact hkey key hgiven
  · split at hloop
    · cases hloop
    · exact loopOver_legible isVariable_nil isVariable_nil hloop

/-! ### Templates -/

mutual

/-- The names in a node hold no blanks, its paths are legible, and its loops bind plain names. -/
def Node.IsLegible : Node → Prop
  | .block children _ => LegibleIn children
  | .element name attrs content _ _ =>
    name.IsUnbroken ∧ (∀ a ∈ attrs, a.name.IsUnbroken) ∧ LegibleIn content
  | .text .. => True
  | .expression path _ => path.IsLegible
  | .conditional test consequent alternate _ =>
    test.IsLegible ∧ LegibleIn consequent ∧ LegibleAlternate alternate
  | .iteration collection key value body _ =>
    collection.IsLegible ∧ key.IsVariable ∧ value.IsVariable ∧ LegibleIn body
  | .hole => True
  | .foreign .. => True

def LegibleAlternate : Option (List Node) → Prop
  | none => True
  | some nodes => LegibleIn nodes

def LegibleIn : List Node → Prop
  | [] => True
  | node :: rest => node.IsLegible ∧ LegibleIn rest

end

theorem LegibleIn.append {first others : List Node} (hfirst : LegibleIn first)
    (hothers : LegibleIn others) : LegibleIn (first ++ others) := by
  induction first with
  | nil => exact hothers
  | cons node rest ih => exact ⟨hfirst.1, ih hfirst.2⟩

theorem LegibleIn.mergeTexts {nodes : List Node} (hnodes : LegibleIn nodes) :
    LegibleIn (mergeTexts nodes) := by
  have hmerged {node : Node} {nodes : List Node} (hnode : node.IsLegible) (hnodes : LegibleIn nodes) :
      LegibleIn (consMerged node nodes) := by
    unfold Template.consMerged
    split
    · exact ⟨trivial, hnodes.2⟩
    · exact ⟨hnode, hnodes⟩
  induction nodes with
  | nil => trivial
  | cons node rest ih => exact hmerged hnodes.1 (ih hnodes.2)

theorem tokensOfMarkup_legible (tokens : List Markup.Token) :
    LegibleIn (tokensOfMarkup tokens).nodes := by
  induction tokens with
  | nil => trivial
  | cons t rest ih =>
    refine LegibleIn.append ?_ ih
    rw [tokenOfMarkup]
    split
    · rw [expressionOfMarkup]
      split
      · trivial
      · split
        · trivial
        · rename_i path hpath
          exact ⟨(Path.parse_spec hpath).1, trivial⟩
    · split
      · trivial
      · exact ⟨trivial, trivial⟩

theorem attrOfMarkup_name {a : Markup.Attr} {attr : Attr} (hread : attrOfMarkup a = .ok attr) :
    attr.name = a.name := by
  cases hspread : Attribute.isSpread a.name with
  | true =>
    rw [attrOfMarkup, if_pos hspread] at hread
    exact (ofSpread_spreadOfMarkup hread).1
  | false => exact (attrOfMarkup_eq_ok hspread hread).1

theorem attrsOfMarkup_unbroken {attrs : List Markup.Attr}
    (hattrs : ∀ a ∈ attrs, Markup.IsName a.name) :
    ∀ a ∈ (attrsOfMarkup attrs).1, a.name.IsUnbroken := by
  induction attrs with
  | nil =>
    intro a ha
    cases ha
  | cons a rest ih =>
    have hrest := ih fun b hb => hattrs b (List.mem_cons_of_mem a hb)
    rw [attrsOfMarkup]
    split
    · rename_i attr hread
      intro b hb
      rcases List.mem_cons.mp hb with rfl | hb
      · rw [attrOfMarkup_name hread]
        exact (hattrs a List.mem_cons_self).isUnbroken
      · exact hrest b hb
    · exact hrest

theorem testOfMarkup_legible {parameters : List Markup.Parameter} {header : Span} :
    ∀ path ∈ (testOfMarkup parameters header).1, Path.IsLegible path := by
  intro path hpath
  cases parameters with
  | nil => cases hpath
  | cons p extra =>
    rw [testOfMarkup] at hpath
    split at hpath
    · cases hpath
    · rename_i test htest
      obtain rfl := Option.some.inj hpath
      exact (Path.parse_spec htest).1

theorem loopOfMarkup_legible {parameters : List Markup.Parameter} {header : Span} :
    ∀ l ∈ (loopOfMarkup parameters header).1, l.IsLegible := by
  intro l hl
  cases parameters with
  | nil => cases hl
  | cons p extra =>
    rw [loopOfMarkup] at hl
    split at hl
    · cases hl
    · rename_i loop hloop
      obtain rfl := Option.some.inj hl
      exact loopOfText_legible hloop

theorem conditionalOfMarkup_legible {test : Option Path × List Diagnostic}
    (htest : ∀ path ∈ test.1, Path.IsLegible path) (elses : List Diagnostic) {consequent : Draft}
    {alternate : Option Alternate} (span : Span) (hconsequent : LegibleIn consequent.nodes)
    (halternate : ∀ a ∈ alternate, LegibleIn a.content.nodes) :
    LegibleIn (conditionalOfMarkup test elses consequent alternate span).nodes := by
  rw [conditionalOfMarkup]
  split
  · trivial
  · rename_i path hpath
    refine ⟨⟨htest path hpath, hconsequent.mergeTexts, ?_⟩, trivial⟩
    cases alternate with
    | none => trivial
    | some a => exact (halternate a rfl).mergeTexts

theorem iterationOfMarkup_legible {loop : Option Loop × List Diagnostic}
    (hloop : ∀ l ∈ loop.1, l.IsLegible) {body : Draft} (span : Span) (hbody : LegibleIn body.nodes) :
    LegibleIn (iterationOfMarkup loop body span).nodes := by
  rw [iterationOfMarkup]
  split
  · trivial
  · rename_i l hl
    have hlegible := hloop l hl
    exact ⟨⟨hlegible.collection, nameOr_isVariable isVariable_defaultNames.1 hlegible.key,
      nameOr_isVariable isVariable_defaultNames.2 hlegible.value, hbody.mergeTexts⟩, trivial⟩

mutual

theorem nodesOfMarkup_legible (skip : Nat) (nodes : List Markup.Node) (hnodes : Markup.NamedIn nodes) :
    LegibleIn (nodesOfMarkup skip nodes).nodes := by
  match skip, nodes with
  | skip, [] =>
    rw [nodesOfMarkup]
    trivial
  | skip + 1, n :: rest =>
    rw [nodesOfMarkup]
    exact nodesOfMarkup_legible skip rest hnodes.2
  | 0, .element name attrs children selfClosing spans :: rest =>
    rw [nodesOfMarkup]
    obtain ⟨⟨hname, hattrs, hchildren⟩, hrest⟩ := hnodes
    have hcontent := nodesOfMarkup_legible 0 children hchildren
    exact LegibleIn.append
      ⟨⟨hname.isUnbroken, attrsOfMarkup_unbroken hattrs, hcontent.mergeTexts⟩, trivial⟩
      (nodesOfMarkup_legible 0 rest hrest)
  | 0, .text value tokens span :: rest =>
    rw [nodesOfMarkup]
    exact (tokensOfMarkup_legible tokens).append (nodesOfMarkup_legible 0 rest hnodes.2)
  | 0, .comment body span :: rest =>
    rw [nodesOfMarkup]
    exact nodesOfMarkup_legible 0 rest hnodes.2
  | 0, .block name parameters children spans :: rest =>
    obtain ⟨hchildren, hrest⟩ := hnodes
    rw [nodesOfMarkup]
    split
    · exact (conditionalOfMarkup_legible testOfMarkup_legible _ spans.whole
        (nodesOfMarkup_legible 0 children hchildren) (alternateOfMarkup_legible rest hrest)).append
        (nodesOfMarkup_legible _ rest hrest)
    · split
      · exact (iterationOfMarkup_legible loopOfMarkup_legible spans.whole
          (nodesOfMarkup_legible 0 children hchildren)).append (nodesOfMarkup_legible 0 rest hrest)
      · exact LegibleIn.append trivial (nodesOfMarkup_legible 0 rest hrest)

theorem alternateOfMarkup_legible (nodes : List Markup.Node) (hnodes : Markup.NamedIn nodes) :
    ∀ a ∈ alternateOfMarkup? nodes, LegibleIn a.content.nodes := by
  match nodes with
  | [] => simp [alternateOfMarkup?]
  | .comment body span :: rest =>
    rw [alternateOfMarkup?]
    exact alternateOfMarkup_legible rest hnodes.2
  | .text value tokens span :: rest =>
    rw [alternateOfMarkup?]
    split
    · exact alternateOfMarkup_legible rest hnodes.2
    · simp
  | .block name parameters children spans :: rest =>
    rw [alternateOfMarkup?]
    split
    · intro a ha
      obtain rfl := Option.some.inj ha
      exact nodesOfMarkup_legible 0 children hnodes.1
    · simp
  | .element .. :: _ => simp [alternateOfMarkup?]

end

end Template

theorem parse_legible {o : Options} {text : Text} {root : Template.Node}
    (hparse : parse o text = .ok root) : root.IsLegible := by
  obtain ⟨nodes, hmarkup, -, rfl⟩ := parse_eq_ok hparse
  have htree := Markup.Tree.ofText_named ⟨false⟩ text
  have hnodes : Markup.NamedIn nodes := by
    rw [parseMarkup] at hmarkup
    split at hmarkup
    · obtain rfl := Except.ok.inj hmarkup
      split
      · exact htree
      · exact Markup.removeBlanks_named htree
    · cases hmarkup
  exact (Template.nodesOfMarkup_legible 0 nodes hnodes).mergeTexts

end Stencil
