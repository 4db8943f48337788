import Stencil.Proofs.JoinedLines
import Stencil.Proofs.Rebuilding

/-!
# The grammar of tokens

The lexemes of a source follow a grammar, also where reading it failed: block headers are complete or not
there at all, and a failure cuts at most one start tag short. So in a source that was read without problems
every lexeme belongs to a construct, and gathering lexemes into pieces passes over none of them.
-/

namespace Stencil.Markup

/-- An attribute as it is written in a start tag. -/
inductive WrittenAttr where
  | bare (name : Text)
  | unquoted (name value : Text)
  | quoted (name opening value closing : Text)

def WrittenAttr.lexemes : WrittenAttr → List Lexeme
  | .bare name => [.attrName name]
  | .unquoted name value => [.attrName name, .attrValue value]
  | .quoted name opening value closing =>
    [.attrName name, .attrQuote opening, .attrValue value, .attrQuote closing]

/-- A lexeme that goes on with an attribute. -/
def Lexeme.isValuePart : Lexeme → Bool
  | .attrValue _ | .attrQuote _ => true
  | _ => false

theorem WrittenAttr.head?_lexemes (attrs : List WrittenAttr) {rest : List Lexeme}
    (hrest : ∀ l ∈ rest.head?, l.isValuePart = false) :
    ∀ l ∈ (attrs.flatMap WrittenAttr.lexemes ++ rest).head?, l.isValuePart = false := by
  cases attrs with
  | nil => exact hrest
  | cons a attrs => cases a <;> simp [WrittenAttr.lexemes, Lexeme.isValuePart]

theorem WrittenAttr.eof_notMem_lexemes (a : WrittenAttr) : Lexeme.eof ∉ a.lexemes := by
  cases a <;> simp [WrittenAttr.lexemes]

/-- How a start tag ends that is not cut short. -/
inductive TagEnding where
  | selfClosing
  | opening
  /-- The content is kept verbatim, and there is some. -/
  | verbatim (first : UInt8) (content : Text)

def TagEnding.lexemes : TagEnding → List Lexeme
  | .selfClosing => [.tagOpenEndVoid]
  | .opening => [.tagOpenEnd]
  | .verbatim first content => [.tagOpenEnd, .rawText (first :: content)]

/-- The lexemes of an attribute whose quote is never closed, by its name and its quote. -/
def danglingLexemes : Option (Text × Text) → List Lexeme
  | none => []
  | some (name, quote) => [.attrName name, .attrQuote quote]

/-- A lexeme that is a construct by itself. -/
def Lexeme.isSingle : Lexeme → Bool
  | .text _ | .interpolation _ | .comment _ | .tagClose _ | .blockClose => true
  | _ => false

/-- The lexemes of a source, at most `cut` start tags of which are cut short. -/
inductive Sentence : (cut : Nat) → List Lexeme → Prop
  | eof (cut : Nat) : Sentence cut [.eof]
  | single {cut : Nat} {l : Lexeme} {rest : List Lexeme} (hl : l.isSingle = true)
      (hrest : Sentence cut rest) : Sentence cut (l :: rest)
  | blockHeader {cut : Nat} (name : Text) (parameters : List Text) {rest : List Lexeme}
      (hrest : Sentence cut rest) :
      Sentence cut (.blockOpenStart name :: (parameters.map .blockParameter ++ .blockOpenEnd :: rest))
  | startTag {cut : Nat} (name : Text) (attrs : List WrittenAttr) (ending : TagEnding)
      {rest : List Lexeme} (hrest : Sentence cut rest) :
      Sentence cut (.tagOpenStart name :: (attrs.flatMap WrittenAttr.lexemes ++
        (ending.lexemes ++ rest)))
  | cutTag {cut : Nat} (name : Text) (attrs : List WrittenAttr) (dangling : Option (Text × Text))
      {rest : List Lexeme} (hrest : Sentence cut rest) :
      Sentence (cut + 1) (.tagOpenStart name :: (attrs.flatMap WrittenAttr.lexemes ++
        (danglingLexemes dangling ++ rest)))

namespace Sentence

theorem mono {m n : Nat} {lexemes : List Lexeme} (hm : Sentence m lexemes) (hle : m ≤ n) :
    Sentence n lexemes := by
  induction hm generalizing n with
  | eof => exact eof n
  | single hl _ ih => exact single hl (ih hle)
  | blockHeader name parameters _ ih => exact blockHeader name parameters (ih hle)
  | startTag name attrs ending _ ih => exact startTag name attrs ending (ih hle)
  | cutTag name attrs dangling _ ih =>
    obtain ⟨n, rfl⟩ : ∃ k, n = k + 1 := ⟨n - 1, by omega⟩
    exact cutTag name attrs dangling (ih (Nat.le_of_succ_le_succ hle))

theorem singles {cut : Nat} {first rest : List Lexeme} (hfirst : ∀ l ∈ first, l.isSingle = true)
    (hrest : Sentence cut rest) : Sentence cut (first ++ rest) := by
  induction first with
  | nil => exact hrest
  | cons l first ih =>
    exact single (hfirst l List.mem_cons_self) (ih fun k hk => hfirst k (List.mem_cons_of_mem l hk))

/-- The end mark is the last lexeme, and no other is one. -/
theorem exists_append_eof {cut : Nat} {lexemes : List Lexeme} (h : Sentence cut lexemes) :
    ∃ front, lexemes = front ++ [.eof] ∧ Lexeme.eof ∉ front := by
  induction h with
  | eof => exact ⟨[], rfl, List.not_mem_nil⟩
  | @single _ l _ hl _ ih =>
    obtain ⟨front, rfl, hfront⟩ := ih
    refine ⟨l :: front, rfl, ?_⟩
    rintro (_ | ⟨_, hmem⟩)
    · cases hl
    · exact hfront hmem
  | blockHeader name parameters _ ih =>
    obtain ⟨front, rfl, hfront⟩ := ih
    refine ⟨.blockOpenStart name :: (parameters.map .blockParameter ++ .blockOpenEnd :: front), by simp, ?_⟩
    simpa using hfront
  | startTag name attrs ending _ ih =>
    obtain ⟨front, rfl, hfront⟩ := ih
    refine ⟨.tagOpenStart name :: (attrs.flatMap WrittenAttr.lexemes ++ (ending.lexemes ++ front)), by simp, ?_⟩
    have hending : Lexeme.eof ∉ ending.lexemes := by cases ending <;> simp [TagEnding.lexemes]
    simp [WrittenAttr.eof_notMem_lexemes, hending, hfront]
  | cutTag name attrs dangling _ ih =>
    obtain ⟨front, rfl, hfront⟩ := ih
    refine ⟨.tagOpenStart name :: (attrs.flatMap WrittenAttr.lexemes ++ (danglingLexemes dangling ++ front)),
      by simp, ?_⟩
    have hdangling : Lexeme.eof ∉ danglingLexemes dangling := by
      cases dangling <;> simp [danglingLexemes]
    simp [WrittenAttr.eof_notMem_lexemes, hdangling, hfront]

end Sentence

/-! ### Scanning -/

namespace Scan

variable {options : ScanOptions} {start c : Cursor}

/-- The lexemes of a scan make a sentence with what follows them. If the scan failed, one more start tag
may have been cut short. -/
def Leads (s : Scan) : Prop :=
  ∀ cut rest, Sentence cut rest →
    Sentence (cut + s.failure.toList.length) (s.tokens.map Token.lexeme ++ rest)

theorem leads_of_singles {s : Scan} (hs : ∀ t ∈ s.tokens, t.lexeme.isSingle = true) : s.Leads := by
  intro cut rest hrest
  apply Sentence.singles
  · intro l hl
    obtain ⟨t, ht, rfl⟩ := List.mem_map.mp hl
    exact hs t ht
  · exact hrest.mono (Nat.le_add_right _ _)

theorem andThen_done (tokens : List Token) (c : Cursor) (next : Cursor → Scan) :
    (done tokens c).andThen next =
      ⟨tokens ++ (next c).tokens, (next c).cursor, (next c).failure⟩ := rfl

theorem comment_singles : ∀ t ∈ (comment options start c).tokens, t.lexeme.isSingle = true := by
  rw [comment]
  dsimp only
  split <;> simp [unexpected, failed, done, Lexeme.isSingle]

theorem endTag_singles : ∀ t ∈ (endTag start c).tokens, t.lexeme.isSingle = true := by
  rw [endTag]
  dsimp only
  split
  · simp [unexpected, failed]
  · split <;> simp [unexpected, failed, done, Lexeme.isSingle]

/-- A scan inside a start tag gave attributes. Only if it failed, the last one may lack its value. -/
def GivesAttrs (s : Scan) : Prop :=
  ∃ (written : List WrittenAttr) (dangling : Option (Text × Text)),
    s.tokens.map Token.lexeme = written.flatMap WrittenAttr.lexemes ++ danglingLexemes dangling ∧
      (s.failure = none → dangling = none)

theorem attrValue_lexemes (c : Cursor) (name : Text) :
    ∃ (written : WrittenAttr ⊕ Text × Text),
      .attrName name :: (attrValue options c).tokens.map Token.lexeme =
        written.elim WrittenAttr.lexemes (fun d => danglingLexemes (some d)) ∧
      ((attrValue options c).failure = none → written.isLeft = true) := by
  rw [attrValue]
  split
  · exact ⟨.inl (.bare name), rfl, fun _ => rfl⟩
  · rename_i q _
    dsimp only
    split
    · split
      · exact ⟨.inr (name, Text.ofChar q), rfl, by rintro ⟨⟩⟩
      · exact ⟨.inl (.quoted name _ _ _), rfl, fun _ => rfl⟩
    · split
      · exact ⟨.inl (.bare name), rfl, fun _ => rfl⟩
      · exact ⟨.inl (.unquoted name _), rfl, fun _ => rfl⟩

theorem attr_givesAttrs (c : Cursor) : (attr options c).GivesAttrs := by
  rw [attr]
  dsimp only
  split
  · exact ⟨[], none, rfl, fun _ => rfl⟩
  · split
    · obtain ⟨written, hlexemes, hwhole⟩ := @attrValue_lexemes options
        c.skipName.skipSpace.advance.skipSpace (c.textTo c.skipName)
      cases written with
      | inl a => exact ⟨[a], none, hlexemes.trans (by simp [danglingLexemes]), fun _ => rfl⟩
      | inr d => exact ⟨[], some d, hlexemes, fun hnone => absurd (hwhole hnone) (by simp)⟩
    · exact ⟨[.bare _], none, rfl, fun _ => rfl⟩

theorem attrs_givesAttrs (fuel : Nat) (c : Cursor) : (attrs options fuel c).GivesAttrs := by
  induction fuel generalizing c with
  | zero => exact ⟨[], none, rfl, fun _ => rfl⟩
  | succ fuel ih =>
    rw [attrs]
    split
    · exact ⟨[], none, rfl, fun _ => rfl⟩
    · obtain ⟨first, dangling, hfirst, hwhole⟩ := @attr_givesAttrs options c.skipSpace
      rw [Scan.andThen]
      cases hfailure : (attr options c.skipSpace).failure with
      | some f => exact ⟨first, dangling, hfirst, hwhole⟩
      | none =>
        obtain ⟨others, last, hothers, hlast⟩ := ih (attr options c.skipSpace).cursor
        obtain rfl := hwhole hfailure
        refine ⟨first ++ others, last, ?_, hlast⟩
        rw [List.map_append, hfirst, hothers, List.flatMap_append, List.append_assoc, List.append_assoc]
        rfl

theorem startTagEnd_lexemes (c : Cursor) :
    ((startTagEnd c).failure.isSome = true ∧ (startTagEnd c).tokens = []) ∨
      ((startTagEnd c).failure = none ∧
        (startTagEnd c).tokens.map Token.lexeme =
          [if c.isAt '/' then .tagOpenEndVoid else .tagOpenEnd]) := by
  rw [startTagEnd]
  split
  · split
    · exact .inr ⟨rfl, rfl⟩
    · exact .inl ⟨rfl, rfl⟩
  · split
    · exact .inr ⟨rfl, rfl⟩
    · exact .inl ⟨rfl, rfl⟩

theorem rawText_lexemes (name : Text) (c : Cursor) :
    (rawText options name c).failure = none ∧
      ∃ ending : TagEnding,
        .tagOpenEnd :: (rawText options name c).tokens.map Token.lexeme = ending.lexemes := by
  rw [rawText]
  split
  · exact ⟨rfl, .opening, rfl⟩
  · rename_i hne
    refine ⟨rfl, ?_⟩
    have hkept : lineEndings options (c.textTo (c.seek (beginsEndTag name))) ≠ [] := by
      intro hempty
      rw [lineEndings] at hempty
      split at hempty
      · exact hne (by rw [hempty]; rfl)
      · apply hne
        rw [← Text.isEmpty_normalizeLineEndings, hempty]
        rfl
    obtain ⟨first, content, hcontent⟩ := List.exists_cons_of_ne_nil hkept
    exact ⟨.verbatim first content, by simp only [done, List.map_cons, List.map_nil, hcontent]; rfl⟩

/-- What comes behind the attributes of a start tag: the end of the tag, or a failure. -/
theorem startTag_tail (name : Text) (c : Cursor) :
    let tail := (startTagEnd c).andThen fun d =>
      if !c.isAt '/' && (Tag.ofName name).content == .raw then rawText options name d else done [] d
    (tail.failure.isSome = true ∧ tail.tokens = []) ∨
      (tail.failure = none ∧ ∃ ending : TagEnding, tail.tokens.map Token.lexeme = ending.lexemes) := by
  dsimp only
  rw [Scan.andThen]
  rcases startTagEnd_lexemes c with ⟨hfailure, htokens⟩ | ⟨hfailure, htokens⟩
  · obtain ⟨f, hf⟩ := Option.isSome_iff_exists.mp hfailure
    rw [hf]
    exact .inl ⟨hfailure, htokens⟩
  · right
    rw [hfailure]
    dsimp only
    rw [List.map_append, htokens]
    split
    · rename_i hraw
      have hopen : c.isAt '/' = false := by simp_all
      rw [hopen]
      exact rawText_lexemes name _
    · refine ⟨rfl, ?_⟩
      cases c.isAt '/' with
      | true => exact ⟨.selfClosing, rfl⟩
      | false => exact ⟨.opening, rfl⟩

theorem startTag_leads : (startTag options start c).Leads := by
  rw [startTag]
  split
  · apply leads_of_singles
    simp [done, Lexeme.isSingle]
  · dsimp only
    obtain ⟨written, dangling, hattrs, hwhole⟩ :=
      @attrs_givesAttrs options c.skipName.rest.length c.skipName
    intro cut rest hrest
    rw [andThen_done, Scan.andThen]
    dsimp only
    cases hfailure : (attrs options c.skipName.rest.length c.skipName).failure with
    | some f =>
      dsimp only
      rw [List.map_append, hattrs, List.append_assoc, List.append_assoc]
      exact .cutTag _ written dangling hrest
    | none =>
      obtain rfl := hwhole hfailure
      dsimp only
      rw [List.map_append, List.map_append, hattrs, List.append_assoc, List.append_assoc,
        List.append_assoc]
      rcases @startTag_tail options (c.textTo c.skipName)
          (attrs options c.skipName.rest.length c.skipName).cursor with
        ⟨htail, htokens⟩ | ⟨htail, ending, htokens⟩
      · obtain ⟨f, hf⟩ := Option.isSome_iff_exists.mp htail
        rw [hf, htokens]
        exact .cutTag _ written none hrest
      · rw [htail, htokens]
        exact .startTag _ written ending hrest

theorem blockParameters_lexemes (fuel : Nat) (c : Cursor) :
    ∃ parameters : List Text, (blockParameters fuel c).tokens.map Token.lexeme =
      parameters.map Lexeme.blockParameter := by
  induction fuel generalizing c with
  | zero => exact ⟨[], rfl⟩
  | succ fuel ih =>
    rw [blockParameters]
    split
    · exact ⟨[], rfl⟩
    · dsimp only [Scan.andThen, done]
      obtain ⟨parameters, hparameters⟩ := ih _
      rw [List.map_append, hparameters]
      exact ⟨_ :: parameters, rfl⟩

theorem blockHeader_leads : (blockHeader start).Leads := by
  have hnone : ∀ {d : Cursor} {p : Problem}, (failed [] d p start).Leads :=
    leads_of_singles (by simp [failed])
  rw [blockHeader]
  dsimp only
  split
  · split
    · split
      · intro cut rest hrest
        obtain ⟨parameters, hparameters⟩ := blockParameters_lexemes _ _
        dsimp only [done]
        rw [List.map_append, List.map_cons, hparameters, List.append_assoc]
        exact .blockHeader _ parameters hrest
      · exact hnone
    · exact hnone
  · split
    · intro cut rest hrest
      exact .blockHeader _ [] hrest
    · exact hnone

theorem textRun_singles (fuel : Nat) (c : Cursor) :
    ∀ t ∈ (textRun options fuel c).tokens, t.lexeme.isSingle = true := by
  have htoken : ∀ c d : Cursor, ∀ t ∈ textToken options c d, t.lexeme.isSingle = true := by
    intro c d t ht
    rw [textToken] at ht
    split at ht
    · cases ht
    · rw [List.mem_singleton.mp ht]
      rfl
  induction fuel generalizing c with
  | zero => simp [textRun, done]
  | succ fuel ih =>
    rw [textRun]
    dsimp only
    split
    · split
      · exact htoken _ _
      · rw [andThen_done]
        intro t ht
        rcases List.mem_append.mp ht with ht | ht
        · rcases List.mem_append.mp ht with ht | ht
          · exact htoken _ _ t ht
          · rw [List.mem_singleton.mp ht]
            rfl
        · exact ih _ t ht
    · exact htoken _ _

theorem next_leads : (next options c).Leads := by
  rw [next]
  split
  · exact leads_of_singles comment_singles
  split
  · exact leads_of_singles endTag_singles
  split
  · exact startTag_leads
  split
  · exact blockHeader_leads
  split
  · exact leads_of_singles (by simp [done, Lexeme.isSingle])
  · exact leads_of_singles (textRun_singles _ _)

end Scan

/-- The lexemes of a source are a sentence, in which at most as many start tags are cut short as there are
problems. -/
theorem TokenStream.readFrom_sentence (options : ScanOptions) (fuel : Nat) (c : Cursor) :
    Sentence (readFrom options fuel c).diagnostics.length
      ((readFrom options fuel c).tokens.map Token.lexeme) := by
  induction fuel generalizing c with
  | zero => exact .eof 0
  | succ fuel ih =>
    rw [readFrom]
    split
    · exact .eof 0
    · have hnext := @Scan.next_leads options c _ _ (ih (resume c (Scan.next options c)))
      have hlength : (diagnosticOf (Scan.next options c)).length =
          (Scan.next options c).failure.toList.length := by
        rw [diagnosticOf]
        split <;> rename_i hfailure <;> rw [hfailure] <;> rfl
      dsimp only
      rw [List.map_append, List.length_append, hlength, Nat.add_comm]
      exact hnext

/-! ### Gathering -/

/-- A quote without its mark: which of the two quotes is used does not matter. -/
def Lexeme.unmarked : Lexeme → Lexeme
  | .attrQuote _ => .attrQuote quoteMark
  | l => l

/-- What may come behind a start tag: a sentence, or verbatim content in front of one. -/
def Content (lexemes : List Lexeme) : Prop :=
  Sentence 0 lexemes ∨
    ∃ first content rest, lexemes = .rawText (first :: content) :: rest ∧ Sentence 0 rest

/-- The ways content goes on. -/
theorem Content.cases {l : Lexeme} {lexemes : List Lexeme} (h : Content (l :: lexemes)) :
    (l = .eof ∧ lexemes = []) ∨
      (Sentence 0 lexemes ∧
        (l.isSingle = true ∨ ∃ first content, l = .rawText (first :: content))) ∨
      (∃ (name : Text) (parameters : List Text) (rest : List Lexeme), l = .blockOpenStart name ∧
        Sentence 0 rest ∧ lexemes = parameters.map .blockParameter ++ .blockOpenEnd :: rest) ∨
      ∃ (name : Text) (attrs : List WrittenAttr) (ending : StartTagEnd) (rest : List Lexeme),
        l = .tagOpenStart name ∧ Content rest ∧ ending ≠ .incomplete ∧
        lexemes = attrs.flatMap WrittenAttr.lexemes ++ (ending.lexemes ++ rest) := by
  rcases h with h | ⟨first, content, rest, heq, hrest⟩
  · cases h with
    | eof => exact .inl ⟨rfl, rfl⟩
    | single hl hrest => exact .inr (.inl ⟨hrest, .inl hl⟩)
    | blockHeader name parameters hrest =>
      exact .inr (.inr (.inl ⟨name, parameters, _, rfl, hrest, rfl⟩))
    | @startTag _ name attrs ending rest hrest =>
      refine .inr (.inr (.inr ?_))
      cases ending with
      | selfClosing => exact ⟨name, attrs, .selfClosing, rest, rfl, .inl hrest, by decide, rfl⟩
      | opening => exact ⟨name, attrs, .opening, rest, rfl, .inl hrest, by decide, rfl⟩
      | verbatim first content =>
        exact ⟨name, attrs, .opening, _, rfl, .inr ⟨first, content, rest, rfl, hrest⟩, by decide, rfl⟩
  · obtain ⟨rfl, rfl⟩ := List.cons.inj heq
    exact .inr (.inl ⟨hrest, .inr ⟨first, content, rfl⟩⟩)

namespace Piece

theorem eq_cons_of_map_lexeme {tokens : List Token} {l : Lexeme} {rest : List Lexeme}
    (h : tokens.map Token.lexeme = l :: rest) :
    ∃ span more, tokens = ⟨l, span⟩ :: more ∧ more.map Token.lexeme = rest := by
  obtain ⟨⟨_, span⟩, more, rfl, rfl, hmore⟩ := List.map_eq_cons_iff.mp h
  exact ⟨span, more, rfl, hmore⟩

/-- Attributes are taken as they are written, and then taking goes on behind them. -/
theorem takeAttrs_append {attrs : List WrittenAttr} {rest : List Lexeme}
    (hrest : ∀ l ∈ rest.head?, l.isValuePart = false) {tokens : List Token}
    (htokens : tokens.map Token.lexeme = attrs.flatMap WrittenAttr.lexemes ++ rest) :
    ∃ taken later, takeAttrs tokens = (taken ++ (takeAttrs later).1, (takeAttrs later).2) ∧
      taken.flatMap Attr.lexemes = (attrs.flatMap WrittenAttr.lexemes).map Lexeme.unmarked ∧
      later.map Token.lexeme = rest := by
  induction attrs generalizing tokens with
  | nil => exact ⟨[], tokens, rfl, rfl, htokens⟩
  | cons a attrs ih =>
    rw [List.flatMap_cons, List.append_assoc] at htokens
    rw [List.flatMap_cons, List.map_append]
    cases a with
    | bare name =>
      obtain ⟨s, more, rfl, hmore⟩ := eq_cons_of_map_lexeme htokens
      obtain ⟨taken, later, htake, htaken, hlater⟩ := ih hmore
      have hbare : takeAttrs (⟨.attrName name, s⟩ :: more) =
          (⟨name, [], false, false, s, s, none⟩ :: (takeAttrs more).1, (takeAttrs more).2) := by
        cases more with
        | nil => rfl
        | cons t others =>
          obtain ⟨l, s'⟩ := t
          have hfirst : (attrs.flatMap WrittenAttr.lexemes ++ rest).head? = some l :=
            (congrArg List.head? hmore).symm
          have hl := WrittenAttr.head?_lexemes attrs hrest l hfirst
          cases l with
          | attrValue | attrQuote => cases hl
          | _ => rfl
      refine ⟨_ :: taken, later, by rw [hbare, htake]; rfl, ?_, hlater⟩
      rw [List.flatMap_cons, htaken]
      rfl
    | unquoted name value =>
      obtain ⟨s, named, rfl, hnamed⟩ := eq_cons_of_map_lexeme htokens
      obtain ⟨vs, valued, rfl, hvalued⟩ := eq_cons_of_map_lexeme hnamed
      obtain ⟨taken, later, htake, htaken, hlater⟩ := ih hvalued
      refine ⟨_ :: taken, later, by rw [takeAttrs, htake]; rfl, ?_, hlater⟩
      rw [List.flatMap_cons, htaken]
      rfl
    | quoted name opening value closing =>
      obtain ⟨s, named, rfl, hnamed⟩ := eq_cons_of_map_lexeme htokens
      obtain ⟨os, opened, rfl, hopened⟩ := eq_cons_of_map_lexeme hnamed
      obtain ⟨vs, valued, rfl, hvalued⟩ := eq_cons_of_map_lexeme hopened
      obtain ⟨cs, closed, rfl, hclosed⟩ := eq_cons_of_map_lexeme hvalued
      obtain ⟨taken, later, htake, htaken, hlater⟩ := ih hclosed
      refine ⟨_ :: taken, later, by rw [takeAttrs, htake]; rfl, ?_, hlater⟩
      rw [List.flatMap_cons, htaken]
      rfl

/-- The attributes of a start tag are taken as they are written. -/
theorem takeAttrs_written {attrs : List WrittenAttr} {ending : Lexeme}
    (hending : ending = .tagOpenEnd ∨ ending = .tagOpenEndVoid) {rest : List Lexeme}
    {tokens : List Token}
    (htokens : tokens.map Token.lexeme = attrs.flatMap WrittenAttr.lexemes ++ ending :: rest) :
    (takeAttrs tokens).1.flatMap Attr.lexemes =
        (attrs.flatMap WrittenAttr.lexemes).map Lexeme.unmarked ∧
      (takeAttrs tokens).2.map Token.lexeme = ending :: rest := by
  have hhead : ∀ l ∈ (ending :: rest).head?, l.isValuePart = false := by
    rcases hending with rfl | rfl <;> simp [Lexeme.isValuePart]
  obtain ⟨taken, later, htake, htaken, hlater⟩ := takeAttrs_append hhead htokens
  obtain ⟨s, more, rfl, -⟩ := eq_cons_of_map_lexeme hlater
  have hnone : takeAttrs (⟨ending, s⟩ :: more) = ([], ⟨ending, s⟩ :: more) := by
    rcases hending with rfl | rfl <;> rfl
  rw [htake, hnone, List.append_nil]
  exact ⟨htaken, hlater⟩

theorem takeParameters_written {parameters : List Text} {rest : List Lexeme} {tokens : List Token}
    (htokens : tokens.map Token.lexeme =
      parameters.map Lexeme.blockParameter ++ .blockOpenEnd :: rest) :
    (takeParameters tokens).1.map Parameter.lexeme = parameters.map Lexeme.blockParameter ∧
      (takeParameters tokens).2.map Token.lexeme = .blockOpenEnd :: rest := by
  induction parameters generalizing tokens with
  | nil =>
    obtain ⟨s, more, rfl, -⟩ := eq_cons_of_map_lexeme htokens
    exact ⟨rfl, htokens⟩
  | cons p parameters ih =>
    obtain ⟨s, more, rfl, hmore⟩ := eq_cons_of_map_lexeme htokens
    obtain ⟨hparameters, hrest⟩ := ih hmore
    rw [takeParameters]
    exact ⟨by rw [List.map_cons, hparameters]; rfl, hrest⟩

theorem takeStartTag_written {attrs : List WrittenAttr} {ending : StartTagEnd}
    (hending : ending ≠ .incomplete) {rest : List Lexeme} {tokens : List Token}
    (htokens : tokens.map Token.lexeme =
      attrs.flatMap WrittenAttr.lexemes ++ (ending.lexemes ++ rest)) (name : Text) (span : Span) :
    ∃ taken whole more, takeStartTag name span tokens = (.startTag name taken ending whole, more) ∧
      taken.flatMap Attr.lexemes = (attrs.flatMap WrittenAttr.lexemes).map Lexeme.unmarked ∧
      more.map Token.lexeme = rest := by
  cases ending with
  | incomplete => exact absurd rfl hending
  | opening =>
    obtain ⟨hattrs, hrest⟩ := takeAttrs_written (.inl rfl) htokens
    obtain ⟨s, more, htaken, hmore⟩ := eq_cons_of_map_lexeme hrest
    exact ⟨_, _, more, by rw [takeStartTag, htaken], hattrs, hmore⟩
  | selfClosing =>
    obtain ⟨hattrs, hrest⟩ := takeAttrs_written (.inr rfl) htokens
    obtain ⟨s, more, htaken, hmore⟩ := eq_cons_of_map_lexeme hrest
    exact ⟨_, _, more, by rw [takeStartTag, htaken], hattrs, hmore⟩

theorem takeBlockHeader_written {parameters : List Text} {rest : List Lexeme} {tokens : List Token}
    (htokens : tokens.map Token.lexeme =
      parameters.map Lexeme.blockParameter ++ .blockOpenEnd :: rest) (name : Text) (span : Span) :
    ∃ taken whole more, takeBlockHeader name span tokens = (.blockOpen name taken span whole, more) ∧
      taken.map Parameter.lexeme = parameters.map Lexeme.blockParameter ∧
      more.map Token.lexeme = rest := by
  obtain ⟨hparameters, hrest⟩ := takeParameters_written htokens
  obtain ⟨s, more, htaken, hmore⟩ := eq_cons_of_map_lexeme hrest
  exact ⟨_, _, more, by rw [takeBlockHeader, htaken], hparameters, hmore⟩

/-- A piece that is not cut short, and all of which shows. -/
def IsWhole : Piece → Prop
  | .startTag _ _ ending _ => ending ≠ .incomplete
  | .text first rest => ∀ t ∈ first :: rest, isTextual t = true ∧ t.lexeme ≠ .rawText []
  | _ => True

/-- The pieces hold all the lexemes up to the end mark, in order. -/
structure Hold (pieces : List Piece) (lexemes : List Lexeme) : Prop where
  lexemes : lexemes.map Lexeme.unmarked = pieces.flatMap Piece.lexemes ++ [.eof]
  whole : ∀ piece ∈ pieces, piece.IsWhole
  separated : Separated pieces

namespace Hold

theorem eof : Hold [] [.eof] := ⟨rfl, nofun, trivial⟩

theorem startsWithText {pieces : List Piece} {tokens : List Token}
    (h : Hold pieces (tokens.map Token.lexeme)) (htokens : ∀ t ∈ tokens.head?, isTextual t = false) :
    Piece.startsWithText pieces = false := by
  cases pieces with
  | nil => rfl
  | cons piece pieces =>
    cases piece with
    | text first rest =>
      have hfirst := (h.whole _ List.mem_cons_self first List.mem_cons_self).1
      obtain ⟨l, more, htaken, hl, -⟩ := List.map_eq_cons_iff.mp h.lexemes
      obtain ⟨t, later, rfl, rfl, -⟩ := List.map_eq_cons_iff.mp htaken
      have ht := htokens t rfl
      obtain ⟨l, s⟩ := t
      obtain ⟨k, s'⟩ := first
      obtain rfl : l.unmarked = k := hl
      cases l with
      | text => cases ht
      | rawText => cases ht
      | interpolation => cases ht
      | _ => cases hfirst
    | _ => rfl

/-- One more piece in front. -/
theorem cons {piece : Piece} {pieces : List Piece} {lexemes : List Lexeme} {rest : List Token}
    (hpiece : piece.IsWhole)
    (hlexemes : lexemes.map Lexeme.unmarked =
      piece.lexemes ++ (rest.map Token.lexeme).map Lexeme.unmarked)
    (htext : Piece.startsWithText [piece] = true → ∀ t ∈ rest.head?, isTextual t = false)
    (h : Hold pieces (rest.map Token.lexeme)) : Hold (piece :: pieces) lexemes where
  lexemes := by rw [hlexemes, h.lexemes, List.flatMap_cons, List.append_assoc]
  whole := List.forall_mem_cons.mpr ⟨hpiece, h.whole⟩
  separated := ⟨fun hstarts => h.startsWithText (htext hstarts), h.separated⟩

end Hold

end Piece

theorem Sentence.behind_textual {cut : Nat} {t : Token} {lexemes : List Lexeme}
    (h : Sentence cut (t.lexeme :: lexemes)) (ht : Piece.isTextual t = true) : Sentence cut lexemes := by
  obtain ⟨l, s⟩ := t
  cases h with
  | single _ hrest => exact hrest
  | _ => cases ht

/-- Behind a text the sentence goes on. -/
theorem Sentence.dropTextual {cut : Nat} {tokens : List Token}
    (h : Sentence cut (tokens.map Token.lexeme)) :
    Sentence cut ((tokens.dropWhile Piece.isTextual).map Token.lexeme) := by
  induction tokens with
  | nil => exact h
  | cons t tokens ih =>
    cases htext : Piece.isTextual t with
    | false => rwa [List.dropWhile_cons, if_neg (by simp [htext])]
    | true =>
      rw [List.dropWhile_cons, if_pos htext]
      exact ih (Sentence.behind_textual h htext)

/-- Verbatim content is never empty. -/
theorem Sentence.rawText_ne_nil {cut : Nat} {lexemes : List Lexeme} (h : Sentence cut lexemes) :
    Lexeme.rawText [] ∉ lexemes := by
  have hattrs : ∀ attrs : List WrittenAttr, Lexeme.rawText [] ∉ attrs.flatMap WrittenAttr.lexemes := by
    intro attrs hmem
    obtain ⟨a, -, ha⟩ := List.mem_flatMap.mp hmem
    cases a <;> simp [WrittenAttr.lexemes] at ha
  induction h with
  | eof => simp
  | single hl _ ih =>
    rw [List.mem_cons, not_or]
    refine ⟨?_, ih⟩
    rintro rfl
    cases hl
  | blockHeader name parameters _ ih => simp [ih]
  | startTag name attrs ending _ ih => cases ending <;> simp [hattrs, ih, TagEnding.lexemes]
  | cutTag name attrs dangling _ ih => rcases dangling with _ | d <;> simp [hattrs, ih, danglingLexemes]

/-- A text takes in all the textual tokens that come next. -/
theorem Piece.Hold.text {pieces : List Piece} {t : Token} {tokens : List Token}
    (ht : isTextual t = true) (hraw : t.lexeme ≠ .rawText [])
    (hrest : Sentence 0 (tokens.map Token.lexeme))
    (h : Hold pieces ((tokens.dropWhile isTextual).map Token.lexeme)) :
    Hold (.text t (tokens.takeWhile isTextual) :: pieces) ((t :: tokens).map Token.lexeme) := by
  have htextual : ∀ u ∈ t :: tokens.takeWhile isTextual, isTextual u = true := by
    intro u hu
    rcases List.mem_cons.mp hu with rfl | hu
    · exact ht
    · exact List.all_eq_true.mp List.all_takeWhile u hu
  have hunmarked : ((t :: tokens.takeWhile isTextual).map Token.lexeme).map Lexeme.unmarked =
      (t :: tokens.takeWhile isTextual).map Token.lexeme := by
    rw [List.map_map]
    apply List.map_congr_left
    rintro ⟨l, s⟩ hu
    have hl := htextual _ hu
    cases l with
    | attrQuote => cases hl
    | _ => rfl
  have hsplit : t :: tokens = (t :: tokens.takeWhile isTextual) ++ tokens.dropWhile isTextual := by
    rw [List.cons_append, List.takeWhile_append_dropWhile]
  refine Hold.cons ?_ ?_ ?_ h
  · intro u hu
    refine ⟨htextual u hu, ?_⟩
    rcases List.mem_cons.mp hu with rfl | hu
    · exact hraw
    · intro hempty
      have hmem := List.mem_map.mpr ⟨u, (List.takeWhile_sublist _).mem hu, hempty⟩
      exact hrest.rawText_ne_nil hmem
  · rw [hsplit, List.map_append, List.map_append, hunmarked]
    rfl
  · intro _ u hu
    have hhead := List.head?_dropWhile_not isTextual tokens
    rw [Option.mem_def.mp hu] at hhead
    simpa using hhead

/-- Gathering passes over no lexeme of a source that was read without problems. -/
theorem Piece.hold_gather {tokens : List Token} (h : Content (tokens.map Token.lexeme)) {fuel : Nat}
    (hfuel : tokens.length ≤ fuel) : Hold (gather fuel tokens) (tokens.map Token.lexeme) := by
  induction fuel generalizing tokens with
  | zero =>
    obtain rfl : tokens = [] := List.length_eq_zero_iff.mp (Nat.le_zero.mp hfuel)
    rcases h with h | ⟨_, _, _, heq, -⟩
    · cases h
    · cases heq
  | succ fuel ih =>
    cases tokens with
    | nil =>
      rcases h with h | ⟨_, _, _, heq, -⟩
      · cases h
      · cases heq
    | cons t tokens =>
      have hlength : tokens.length ≤ fuel := by simpa using hfuel
      obtain ⟨l, s⟩ := t
      rcases h.cases with ⟨hl, hrest⟩ | ⟨hrest, hl⟩ | ⟨name, parameters, rest, hl, hrest, hheader⟩ |
        ⟨name, attrs, ending, rest, hl, hrest, hending, htag⟩
      · obtain rfl : l = .eof := hl
        rw [List.map_cons, hrest]
        exact .eof
      · have hdrop : (tokens.dropWhile isTextual).length ≤ fuel :=
          Nat.le_trans (List.dropWhile_sublist _).length_le hlength
        have htext := ih (.inl hrest.dropTextual) hdrop
        have hother := ih (.inl hrest) hlength
        rcases hl with hl | ⟨first, content, hl⟩
        · cases l with
          | text v => exact .text rfl (by rintro ⟨⟩) hrest htext
          | interpolation source => exact .text rfl (by rintro ⟨⟩) hrest htext
          | comment body => exact .cons trivial rfl (by rintro ⟨⟩) hother
          | tagClose name => exact .cons trivial rfl (by rintro ⟨⟩) hother
          | blockClose => exact .cons trivial rfl (by rintro ⟨⟩) hother
          | _ => cases hl
        · obtain rfl : l = .rawText (first :: content) := hl
          exact .text rfl (by rintro ⟨⟩) hrest htext
      · obtain rfl : l = .blockOpenStart name := hl
        obtain ⟨taken, whole, more, htake, htaken, rfl⟩ := takeBlockHeader_written hheader name s
        simp only [gather, htake]
        have hmore : more.length ≤ fuel := by
          have hcount := congrArg List.length hheader
          simp only [List.length_map, List.length_append, List.length_cons] at hcount
          omega
        refine Hold.cons trivial ?_ (by rintro ⟨⟩) (ih (.inl hrest) hmore)
        rw [List.map_cons, hheader, lexemes, htaken]
        simp [Lexeme.unmarked]
      · obtain rfl : l = .tagOpenStart name := hl
        obtain ⟨taken, whole, more, htake, htaken, rfl⟩ := takeStartTag_written hending htag name s
        simp only [gather, htake]
        have hmore : more.length ≤ fuel := by
          have hcount := congrArg List.length htag
          simp only [List.length_map, List.length_append] at hcount
          omega
        refine Hold.cons hending ?_ (by rintro ⟨⟩) (ih hrest hmore)
        rw [List.map_cons, htag, lexemes, htaken]
        cases ending <;> simp [Lexeme.unmarked, StartTagEnd.lexemes]

/-- The pieces of a source that was read without problems hold all its lexemes. -/
theorem Piece.hold_ofText {options : ScanOptions} {text : Text}
    (h : (TokenStream.ofText options text).diagnostics = []) :
    Hold (ofTokens (TokenStream.ofText options text).tokens)
      ((TokenStream.ofText options text).tokens.map Token.lexeme) := by
  have hsentence := TokenStream.readFrom_sentence options text.glyphs.length (.ofText text)
  rw [show (TokenStream.readFrom options text.glyphs.length (.ofText text)).diagnostics = [] from h]
    at hsentence
  exact hold_gather (.inl hsentence) (Nat.le_refl _)

end Stencil.Markup
