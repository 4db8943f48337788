import Stencil.Proofs.InertBlanks
import Stencil.Proofs.TokenGrammar

/-!
# Gathering passes over nothing

Gathering goes through the tokens in rounds. A round begins at a token and takes the piece that begins there,
or passes over the token if it begins none. The second never happens to the tokens of a source: where a round
ends a sentence goes on, or verbatim content stands in front of one, also behind a start tag that is cut
short. `tokens_follow_grammar` puts that beside the sentence that the tokens make, and says what follows the
beginning of a block header and, in a source that is read without problems, of a start tag.
-/

namespace Stencil.Markup

/-! ### What begins in a sentence -/

/-- A lexeme that others have to follow. -/
def Lexeme.begins : Lexeme → Bool
  | .tagOpenStart _ | .blockOpenStart _ => true
  | _ => false

/-- A lexeme that only stands within a start tag. -/
def Lexeme.isInTag : Lexeme → Bool
  | .attrName _ | .attrQuote _ | .attrValue _ | .tagOpenEnd | .tagOpenEndVoid => true
  | _ => false

theorem Lexeme.isValuePart_of_isInTag {l : Lexeme} (hl : l.isInTag = false) : l.isValuePart = false := by
  cases l with
  | attrValue | attrQuote => cases hl
  | _ => rfl

theorem WrittenAttr.not_begins {attrs : List WrittenAttr} {l : Lexeme}
    (hl : l ∈ attrs.flatMap WrittenAttr.lexemes) : l.begins = false := by
  obtain ⟨a, -, ha⟩ := List.mem_flatMap.mp hl
  cases a <;> simp only [WrittenAttr.lexemes, List.mem_cons, List.not_mem_nil, or_false] at ha <;>
    rcases ha with rfl | rfl | rfl | rfl <;> rfl

theorem suffix_behind {l : Lexeme} {after rest : List Lexeme} (front : List Lexeme) (hl : l.begins = true)
    (hfront : ∀ k ∈ front, k.begins = false) (h : l :: after <:+ front ++ rest) : l :: after <:+ rest := by
  induction front with
  | nil => exact h
  | cons k front ih =>
    obtain ⟨hk, hothers⟩ := List.forall_mem_cons.mp hfront
    rcases List.suffix_cons_iff.mp h with heq | h
    · rw [← (List.cons.inj heq).1, hl] at hk
      cases hk
    · exact ih hothers h

namespace Sentence

variable {cut : Nat} {lexemes : List Lexeme}

theorem exists_cons (h : Sentence cut lexemes) : ∃ l rest, lexemes = l :: rest ∧ l.isInTag = false := by
  cases h with
  | @single _ l rest hl _ =>
    refine ⟨l, rest, rfl, ?_⟩
    cases l with
    | attrName | attrQuote | attrValue | tagOpenEnd | tagOpenEndVoid => cases hl
    | _ => rfl
  | _ => exact ⟨_, _, rfl, rfl⟩

/-- From where a tag or a block header begins a sentence goes on as one. -/
theorem of_begins {l : Lexeme} {after : List Lexeme} (h : Sentence cut lexemes)
    (hl : l.begins = true) (hafter : l :: after <:+ lexemes) : Sentence cut (l :: after) := by
  induction h with
  | eof cut =>
    have hend := suffix_behind [.eof] hl (by simp [Lexeme.begins]) hafter
    cases List.suffix_nil.mp hend
  | @single cut k rest hk hrest ih =>
    refine ih (suffix_behind [k] hl (List.forall_mem_singleton.mpr ?_) hafter)
    cases k with
    | tagOpenStart | blockOpenStart => cases hk
    | _ => rfl
  | @blockHeader cut name parameters rest hrest ih =>
    rcases List.suffix_cons_iff.mp hafter with heq | hafter
    · rw [heq]
      exact .blockHeader name parameters hrest
    · rw [List.append_cons] at hafter
      exact ih (suffix_behind _ hl (by simp [Lexeme.begins, or_imp, forall_and]) hafter)
  | @startTag cut name attrs ending rest hrest ih =>
    rcases List.suffix_cons_iff.mp hafter with heq | hafter
    · rw [heq]
      exact .startTag name attrs ending hrest
    · rw [← List.append_assoc] at hafter
      refine ih (suffix_behind _ hl (List.forall_mem_append.mpr ⟨fun _ => WrittenAttr.not_begins, ?_⟩) hafter)
      cases ending <;> simp [TagEnding.lexemes, Lexeme.begins]
  | @cutTag cut name attrs dangling rest hrest ih =>
    rcases List.suffix_cons_iff.mp hafter with heq | hafter
    · rw [heq]
      exact .cutTag name attrs dangling hrest
    · rw [← List.append_assoc] at hafter
      have hfront : ∀ k ∈ danglingLexemes dangling, k.begins = false := by
        cases dangling <;> simp [danglingLexemes, Lexeme.begins]
      have hrest := ih (suffix_behind _ hl
        (List.forall_mem_append.mpr ⟨fun _ => WrittenAttr.not_begins, hfront⟩) hafter)
      exact hrest.mono (Nat.le_succ _)

/-- A block header is there as a whole. -/
theorem behind_blockOpenStart {name : Text} {after : List Lexeme} (h : Sentence cut lexemes)
    (hafter : .blockOpenStart name :: after <:+ lexemes) :
    ∃ (parameters : List Text) (rest : List Lexeme),
      after = parameters.map .blockParameter ++ .blockOpenEnd :: rest := by
  cases h.of_begins rfl hafter with
  | single hl _ => cases hl
  | blockHeader _ parameters _ => exact ⟨parameters, _, rfl⟩

/-- Without problems a start tag is there as a whole. -/
theorem behind_tagOpenStart {name : Text} {after : List Lexeme} (h : Sentence 0 lexemes)
    (hafter : .tagOpenStart name :: after <:+ lexemes) :
    ∃ (attrs : List WrittenAttr) (ending : TagEnding) (rest : List Lexeme),
      after = attrs.flatMap WrittenAttr.lexemes ++ (ending.lexemes ++ rest) := by
  cases h.of_begins rfl hafter with
  | single hl _ => cases hl
  | startTag _ attrs ending _ => exact ⟨attrs, ending, _, rfl⟩

end Sentence

/-! ### Start tags that are cut short -/

namespace Piece

theorem takeAttrs_of_sentence {cut : Nat} {tokens : List Token}
    (h : Sentence cut (tokens.map Token.lexeme)) : takeAttrs tokens = ([], tokens) := by
  obtain ⟨l, others, hlexemes, hl⟩ := h.exists_cons
  obtain ⟨s, later, rfl, -⟩ := eq_cons_of_map_lexeme hlexemes
  cases l with
  | attrName => cases hl
  | _ => rfl

/-- Behind the attributes of a start tag that is cut short the sentence goes on. -/
theorem takeAttrs_cut {attrs : List WrittenAttr} {dangling : Option (Text × Text)} {cut : Nat}
    {rest : List Lexeme} (hrest : Sentence cut rest) {tokens : List Token}
    (htokens : tokens.map Token.lexeme =
      attrs.flatMap WrittenAttr.lexemes ++ (danglingLexemes dangling ++ rest)) :
    (takeAttrs tokens).2.map Token.lexeme = rest := by
  obtain ⟨l, others, rfl, hl⟩ := hrest.exists_cons
  have hhead : ∀ k ∈ (danglingLexemes dangling ++ l :: others).head?, k.isValuePart = false := by
    cases dangling with
    | some d => simp [danglingLexemes, Lexeme.isValuePart]
    | none =>
      rintro _ ⟨⟩
      exact Lexeme.isValuePart_of_isInTag hl
  obtain ⟨taken, later, htake, -, hlater⟩ := takeAttrs_append hhead htokens
  rw [htake]
  cases dangling with
  | none =>
    have hsentence : Sentence cut (later.map Token.lexeme) := hlater ▸ hrest
    rw [takeAttrs_of_sentence hsentence]
    exact hlater
  | some d =>
    obtain ⟨s, named, rfl, hnamed⟩ := eq_cons_of_map_lexeme hlater
    obtain ⟨qs, quoted, rfl, hquoted⟩ := eq_cons_of_map_lexeme hnamed
    have hsentence : Sentence cut (quoted.map Token.lexeme) := hquoted ▸ hrest
    obtain ⟨t, more, rfl, hmore⟩ := eq_cons_of_map_lexeme hquoted
    have hquote : (takeAttrs (⟨.attrName d.1, s⟩ :: ⟨.attrQuote d.2, qs⟩ :: ⟨l, t⟩ :: more)).2 =
        (takeAttrs (⟨l, t⟩ :: more)).2 := by
      cases l with
      | attrValue | attrQuote => cases hl
      | _ => rfl
    rw [hquote, takeAttrs_of_sentence hsentence]
    exact hquoted

/-- Behind a start tag that is cut short the sentence goes on. -/
theorem takeStartTag_cut {attrs : List WrittenAttr} {dangling : Option (Text × Text)} {cut : Nat}
    {rest : List Lexeme} (hrest : Sentence cut rest) {tokens : List Token}
    (htokens : tokens.map Token.lexeme =
      attrs.flatMap WrittenAttr.lexemes ++ (danglingLexemes dangling ++ rest)) (name : Text) (span : Span) :
    (takeStartTag name span tokens).2.map Token.lexeme = rest := by
  have hleft := takeAttrs_cut hrest htokens
  obtain ⟨l, others, rfl, hl⟩ := hrest.exists_cons
  obtain ⟨s, more, htaken, -⟩ := eq_cons_of_map_lexeme hleft
  rw [← hleft, takeStartTag, htaken]
  cases l with
  | tagOpenEnd | tagOpenEndVoid => cases hl
  | _ => rfl

end Piece

/-! ### Rounds -/

/-- What gathering may come to: a sentence, or verbatim content in front of one. -/
def Onward (lexemes : List Lexeme) : Prop :=
  ∃ cut rest, Sentence cut rest ∧ (lexemes = rest ∨ ∃ content, lexemes = .rawText content :: rest)

theorem Sentence.onward {cut : Nat} {lexemes : List Lexeme} (h : Sentence cut lexemes) : Onward lexemes :=
  ⟨cut, lexemes, h, .inl rfl⟩

namespace Piece

/-- One round of gathering: the piece that begins with a token, if one does, and the tokens behind it. -/
def turn (token : Token) (rest : List Token) : Option Piece × List Token :=
  match token.lexeme with
  | .tagOpenStart name =>
    let found := takeStartTag name token.span rest
    (some found.1, found.2)
  | .tagClose name => (some (.endTag name token.span), rest)
  | .text _ | .rawText _ | .interpolation _ =>
    (some (.text token (rest.takeWhile isTextual)), rest.dropWhile isTextual)
  | .comment body => (some (.comment body token.span), rest)
  | .blockOpenStart name =>
    let found := takeBlockHeader name token.span rest
    (some found.1, found.2)
  | .blockClose => (some (.blockClose token.span), rest)
  | _ => (none, rest)

theorem gather_succ (fuel : Nat) (token : Token) (rest : List Token) :
    gather (fuel + 1) (token :: rest) =
      if token.lexeme = .eof then []
      else (turn token rest).1.toList ++ gather fuel (turn token rest).2 := by
  obtain ⟨l, s⟩ := token
  cases l <;> rfl

theorem turn_isSuffix (token : Token) (rest : List Token) : (turn token rest).2 <:+ rest := by
  obtain ⟨l, s⟩ := token
  cases l with
  | tagOpenStart name => exact (@takeStartTag_spec name ⟨.tagOpenStart name, s⟩ rfl rest).1
  | blockOpenStart name => exact (@takeBlockHeader_spec name ⟨.blockOpenStart name, s⟩ rfl rest).1
  | text | rawText | interpolation => exact List.dropWhile_suffix _
  | _ => exact List.suffix_rfl

/-- The rounds of gathering, up to the end mark, each of which gives a piece. -/
inductive Gathers : List Token → List Piece → Prop
  | eof {token : Token} {rest : List Token} (htoken : token.lexeme = .eof) : Gathers (token :: rest) []
  | round {token : Token} {rest left : List Token} {piece : Piece} {pieces : List Piece}
      (hturn : turn token rest = (some piece, left)) (hleft : Gathers left pieces) :
      Gathers (token :: rest) (piece :: pieces)

/-- A round at the beginning of a sentence gives a piece. -/
theorem turn_of_sentence {cut : Nat} {l : Lexeme} {lexemes : List Lexeme}
    (h : Sentence cut (l :: lexemes)) (hl : l ≠ .eof) {rest : List Token}
    (hrest : rest.map Token.lexeme = lexemes) (s : Span) :
    ∃ piece left, turn ⟨l, s⟩ rest = (some piece, left) ∧ Onward (left.map Token.lexeme) := by
  cases h with
  | eof => exact absurd rfl hl
  | single hsingle hsentence =>
    subst hrest
    cases l with
    | text | interpolation => exact ⟨_, _, rfl, hsentence.dropTextual.onward⟩
    | comment | tagClose | blockClose => exact ⟨_, _, rfl, hsentence.onward⟩
    | _ => cases hsingle
  | blockHeader name parameters hsentence =>
    obtain ⟨taken, whole, left, htake, -, rfl⟩ := takeBlockHeader_written hrest name s
    exact ⟨.blockOpen name taken s whole, left, by simp only [turn, htake], hsentence.onward⟩
  | @startTag _ name attrs ending others hsentence =>
    have hturn (ending : StartTagEnd) (hending : ending ≠ .incomplete) {behind : List Lexeme}
        (hbehind : Onward behind) (htag : rest.map Token.lexeme =
          attrs.flatMap WrittenAttr.lexemes ++ (ending.lexemes ++ behind)) :
        ∃ piece left, turn ⟨.tagOpenStart name, s⟩ rest = (some piece, left) ∧
          Onward (left.map Token.lexeme) := by
      obtain ⟨taken, whole, left, htake, -, rfl⟩ := takeStartTag_written hending htag name s
      exact ⟨.startTag name taken ending whole, left, by simp only [turn, htake], hbehind⟩
    cases ending with
    | selfClosing => exact hturn .selfClosing (by decide) hsentence.onward hrest
    | opening => exact hturn .opening (by decide) hsentence.onward hrest
    | verbatim first content =>
      exact hturn .opening (by decide) ⟨_, _, hsentence, .inr ⟨first :: content, rfl⟩⟩ hrest
  | cutTag name attrs dangling hsentence =>
    refine ⟨_, _, rfl, ?_⟩
    rw [takeStartTag_cut hsentence hrest]
    exact hsentence.onward

theorem turn_of_onward {token : Token} {rest : List Token}
    (h : Onward ((token :: rest).map Token.lexeme)) (htoken : token.lexeme ≠ .eof) :
    ∃ piece left, turn token rest = (some piece, left) ∧ Onward (left.map Token.lexeme) := by
  obtain ⟨l, s⟩ := token
  obtain ⟨cut, lexemes, hsentence, rfl | ⟨content, heq⟩⟩ := h
  · exact turn_of_sentence hsentence htoken rfl s
  · obtain ⟨rfl, rfl⟩ : l = .rawText content ∧ rest.map Token.lexeme = lexemes := List.cons.inj heq
    exact ⟨_, _, rfl, hsentence.dropTextual.onward⟩

/-- Every round of gathering gives a piece. -/
theorem gathers_gather {fuel : Nat} {tokens : List Token} (h : Onward (tokens.map Token.lexeme))
    (hfuel : tokens.length ≤ fuel) : Gathers tokens (gather fuel tokens) := by
  induction fuel generalizing tokens with
  | zero =>
    obtain rfl : tokens = [] := List.length_eq_zero_iff.mp (Nat.le_zero.mp hfuel)
    obtain ⟨cut, lexemes, hsentence, rfl | ⟨content, heq⟩⟩ := h
    · cases hsentence
    · cases heq
  | succ fuel ih =>
    cases tokens with
    | nil =>
      obtain ⟨cut, lexemes, hsentence, rfl | ⟨content, heq⟩⟩ := h
      · cases hsentence
      · cases heq
    | cons token rest =>
      rw [gather_succ]
      split
      · rename_i htoken
        exact .eof htoken
      · rename_i htoken
        obtain ⟨piece, left, hturn, hleft⟩ := turn_of_onward h htoken
        have hlength : left.length ≤ fuel := by
          have hsuffix := (turn_isSuffix token rest).length_le
          rw [hturn] at hsuffix
          exact Nat.le_trans hsuffix (Nat.le_of_succ_le_succ hfuel)
        rw [hturn]
        exact .round hturn (ih hleft hlength)

end Piece

/-- The tokens of a source are a sentence, in which no more start tags are cut short than there are problems.
Block headers are there as a whole, start tags are if there was no problem, and every round of gathering
gives a piece. -/
theorem tokens_follow_grammar (options : ScanOptions) (text : Text) :
    let stream := TokenStream.ofText options text
    let lexemes := stream.tokens.map Token.lexeme
    Sentence stream.diagnostics.length lexemes ∧
      (∀ name after, .blockOpenStart name :: after <:+ lexemes →
        ∃ (parameters : List Text) (rest : List Lexeme),
          after = parameters.map .blockParameter ++ .blockOpenEnd :: rest) ∧
      (stream.diagnostics = [] → ∀ name after, .tagOpenStart name :: after <:+ lexemes →
        ∃ (attrs : List WrittenAttr) (ending : TagEnding) (rest : List Lexeme),
          after = attrs.flatMap WrittenAttr.lexemes ++ (ending.lexemes ++ rest)) ∧
      Piece.Gathers stream.tokens (Piece.ofTokens stream.tokens) := by
  have hsentence := TokenStream.readFrom_sentence options text.glyphs.length (.ofText text)
  refine ⟨hsentence, fun name after => hsentence.behind_blockOpenStart, ?_,
    Piece.gathers_gather hsentence.onward (Nat.le_refl _)⟩
  intro hread name after hafter
  rw [show (TokenStream.readFrom options text.glyphs.length (.ofText text)).diagnostics = [] from hread]
    at hsentence
  exact hsentence.behind_tagOpenStart hafter

/-- A block and a start tag in it, neither of which is closed. -/
def openMarkup : Text := "@if (x) \x7b<p a=1>"

theorem openMarkup_follows_grammar :
    let stream := TokenStream.ofText ⟨false⟩ openMarkup
    stream.diagnostics = [] ∧
      stream.tokens.map Token.lexeme =
        [.blockOpenStart "if", .blockParameter "x", .blockOpenEnd, .tagOpenStart "p", .attrName "a",
          .attrValue "1", .tagOpenEnd, .eof] ∧
      (∃ (parameters : List Text) (rest : List Lexeme),
        [.blockParameter "x", .blockOpenEnd, .tagOpenStart "p", .attrName "a", .attrValue "1", .tagOpenEnd,
          .eof] = parameters.map .blockParameter ++ .blockOpenEnd :: rest) ∧
      (∃ (attrs : List WrittenAttr) (ending : TagEnding) (rest : List Lexeme),
        [.attrName "a", .attrValue "1", .tagOpenEnd, .eof] =
          attrs.flatMap WrittenAttr.lexemes ++ (ending.lexemes ++ rest)) ∧
      Piece.Gathers stream.tokens (Piece.ofTokens stream.tokens) := by
  obtain ⟨-, hblock, htag, hgathers⟩ := tokens_follow_grammar ⟨false⟩ openMarkup
  have hread : (TokenStream.ofText ⟨false⟩ openMarkup).diagnostics = [] := by decide +kernel
  have hlexemes : (TokenStream.ofText ⟨false⟩ openMarkup).tokens.map Token.lexeme =
      [.blockOpenStart "if", .blockParameter "x", .blockOpenEnd, .tagOpenStart "p", .attrName "a",
        .attrValue "1", .tagOpenEnd, .eof] := by decide +kernel
  rw [hlexemes] at hblock htag
  exact ⟨hread, hlexemes, hblock "if" _ ⟨[], rfl⟩,
    htag hread "p" _ ⟨[.blockOpenStart "if", .blockParameter "x", .blockOpenEnd], rfl⟩, hgathers⟩

end Stencil.Markup
