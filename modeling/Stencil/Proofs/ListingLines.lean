import Stencil.Proofs.Names
import Stencil.Proofs.Quoting

/-!
# Lines of a listing can be told apart

The line of an operation determines the operation but for its place and for the programs inside it. Its
parts can be separated because each either announces its end or runs up to a byte that it never holds:
a name up to a blank or an equals sign, a path up to a brace, a quoted text up to its quote.

One thing is not shown. A spread attribute is listed by its path, so the blanks that its name may have
around that path are lost; a *tidied* attribute has none there.
-/

namespace Stencil

/-! ### Where a run of bytes ends -/

namespace Text

/-- A text that is empty or begins with a byte of a class. -/
def Halts (stop : UInt8 → Bool) (t : Text) : Prop := ∀ b ∈ t.head?, stop b = true

theorem halts_nil (stop : UInt8 → Bool) : Halts stop [] := by
  intro b hb
  cases hb

theorem halts_cons {stop : UInt8 → Bool} {b : UInt8} (hb : stop b = true) (t : Text) :
    Halts stop (b :: t) := by
  intro c hc
  obtain rfl := Option.some.inj hc
  exact hb

/-- Runs of bytes outside a class that end at bytes of the class are equal if the texts are. -/
theorem append_inj_of_halts {stop : UInt8 → Bool} {u v s t : Text} (hu : ∀ b ∈ u, stop b = false)
    (hv : ∀ b ∈ v, stop b = false) (hs : Halts stop s) (ht : Halts stop t)
    (heq : u ++ s = v ++ t) : u = v ∧ s = t := by
  induction u generalizing v with
  | nil =>
    cases v with
    | nil => exact ⟨rfl, heq⟩
    | cons b v =>
      have hstop := hs b (by rw [show s = b :: v ++ t from heq]; rfl)
      rw [hv b List.mem_cons_self] at hstop
      cases hstop
  | cons a u ih =>
    cases v with
    | nil =>
      have hstop := ht a (by rw [show t = a :: u ++ s from heq.symm]; rfl)
      rw [hu a List.mem_cons_self] at hstop
      cases hstop
    | cons b v =>
      obtain ⟨rfl, hrest⟩ := List.cons.inj heq
      obtain ⟨rfl, hst⟩ := ih (fun c hc => hu c (List.mem_cons_of_mem _ hc))
        (fun c hc => hv c (List.mem_cons_of_mem _ hc)) hrest
      exact ⟨rfl, hst⟩

theorem mem_join {sep : Text} {parts : List Text} {b : UInt8} (hb : b ∈ join sep parts) :
    b ∈ sep ∨ ∃ part ∈ parts, b ∈ part := by
  fun_induction join sep parts with
  | case1 => cases hb
  | case2 part => exact .inr ⟨part, List.mem_singleton_self part, hb⟩
  | case3 part parts _ ih =>
    rcases List.mem_append.mp hb with hb | hb
    · rcases List.mem_append.mp hb with hb | hb
      · exact .inr ⟨part, List.mem_cons_self, hb⟩
      · exact .inl hb
    · rcases ih hb with hsep | ⟨other, hother, hb⟩
      · exact .inl hsep
      · exact .inr ⟨other, List.mem_cons_of_mem part hother, hb⟩

end Text

/-! ### Paths -/

namespace Path

variable {p q : Path}

theorem not_mem_toText (hp : p.IsLegible) {b : UInt8} (hlow : b < 0x80) (hdot : b ≠ 0x2E)
    (hother : CharClass.isIdentifier (Template.byteChar b) = false) : b ∉ p.toText := by
  intro hb
  rw [toText] at hb
  split at hb
  · exact hdot (List.mem_singleton.mp hb)
  · rcases Text.mem_join hb with hb | ⟨s, hs, hb⟩
    · exact hdot (List.mem_singleton.mp hb)
    · rw [(hp s hs).2 b hb hlow] at hother
      cases hother

/-- A legible path is determined by its dotted form. -/
theorem toText_inj (hp : p.IsLegible) (hq : q.IsLegible) (heq : p.toText = q.toText) : p = q := by
  have hsplit : ∀ {p : Path}, p.IsLegible → p ≠ [] → Text.splitOn 0x2E p.toText = p := by
    intro p hp hne
    rw [toText, if_neg (by simp [hne])]
    apply Text.splitOn_join hne
    intro s hs hdot
    have hid := (hp s hs).2 _ hdot (by decide)
    rw [Template.not_isIdentifier_dot] at hid
    cases hid
  -- The root path is written as a dot, which would be two empty segments.
  have hroot : ∀ {p : Path}, p.IsLegible → p.toText = toText [] → p = [] := by
    intro p hp heq
    apply Classical.byContradiction
    intro hne
    have hparts := hsplit hp hne
    rw [heq] at hparts
    change [[], []] = p at hparts
    exact (hp [] (by simp [← hparts])).1 rfl
  by_cases hempty : p = []
  · rw [hempty] at heq ⊢
    exact (hroot hq heq.symm).symm
  · by_cases hempty' : q = []
    · rw [hempty'] at heq ⊢
      exact hroot hp heq
    · rw [← hsplit hp hempty, heq, hsplit hq hempty']

/-- A path in braces determines the path and where it ends. -/
theorem pathText_append_inj (hp : p.IsLegible) (hq : q.IsLegible) {s t : Text}
    (heq : Program.Op.pathText p ++ s = Program.Op.pathText q ++ t) : p = q ∧ s = t := by
  have hinside : ∀ {p : Path}, p.IsLegible → ∀ b ∈ p.toText, (b == 0x7D) = false := by
    intro p hp b hb
    apply beq_false_of_ne
    rintro rfl
    exact not_mem_toText hp (by decide) (by decide) (by decide) hb
  have hshape : ∀ (p : Path) (s : Text), Program.Op.pathText p ++ s =
      0x7B :: (p.toText ++ 0x7D :: s) := by
    intro p s
    change [0x7B] ++ p.toText ++ [0x7D] ++ s = _
    simp
  rw [hshape, hshape] at heq
  obtain ⟨htext, hrest⟩ := Text.append_inj_of_halts (hinside hp) (hinside hq)
    (Text.halts_cons rfl s) (Text.halts_cons rfl t) (List.cons.inj heq).2
  exact ⟨toText_inj hp hq htext, (List.cons.inj hrest).2⟩

theorem lineFeed_not_mem_pathText (hp : p.IsLegible) : 0x0A ∉ Program.Op.pathText p := by
  intro hb
  change 0x0A ∈ [0x7B] ++ p.toText ++ [0x7D] at hb
  simp only [List.mem_append, List.mem_singleton] at hb
  rcases hb with (hb | hb) | hb
  · exact absurd hb (by decide)
  · exact not_mem_toText hp (by decide) (by decide) (by decide) hb
  · exact absurd hb (by decide)

end Path

/-! ### Attributes -/

namespace Attribute

/-- The role that a name gives an attribute, where there are no keys. -/
def roleOf (name : Text) : Role :=
  if isSpread name then .spread else if isEvent name then .event
  else if isClass name then .styleClass else .static

namespace Entry

/-- An attribute without blanks around the path that its name spreads. -/
def tidied (e : Entry) : Entry :=
  if e.role = .spread then { e with name := spreadMark ++ (spreadSource e.name).trim } else e

/-- An attribute as it is compiled where there are no keys. -/
structure IsLegible (e : Entry) : Prop where
  name : e.name.IsUnbroken
  role : e.role = roleOf e.name
  path : ∀ p, e.content = .bound p → p.IsLegible
  spread : e.role = .spread → ∃ p, e.content = .bound p ∧ p.toText = (spreadSource e.name).trim

theorem ofSpread_legible {a : Template.Attr} (hname : a.name.IsUnbroken)
    (hspread : isSpread a.name = true) {e : Entry} (he : ofSpread a = .ok e) : e.IsLegible := by
  rw [ofSpread] at he
  split at he
  · cases he
  split at he
  · cases he
  · rename_i hblank
    split at he
    · cases he
    · rename_i path hpath
      obtain rfl := Except.ok.inj he
      obtain ⟨hlegible, htrim⟩ := Path.parse_spec hpath
      refine ⟨hname, by rw [roleOf, if_pos hspread], ?_, ?_⟩
      · rintro p hp
        obtain rfl := Content.bound.inj hp
        exact hlegible
      · intro _
        exact ⟨path, rfl, htrim (by simpa using hblank)⟩

/-- Only a spread attribute has to name a path. -/
theorem legible_of_role {e : Entry} (hname : e.name.IsUnbroken) (hrole : e.role = roleOf e.name)
    (hspread : e.role ≠ .spread) (hpath : ∀ p, e.content = .bound p → p.IsLegible) : e.IsLegible :=
  ⟨hname, hrole, hpath, fun h => absurd h hspread⟩

theorem ofAttr_legible {a : Template.Attr} (hname : a.name.IsUnbroken) {e : Entry}
    (he : ofAttr [] a = .ok e) : e.IsLegible := by
  have hvalue : ∀ {role : Role}, role = roleOf a.name → role ≠ .spread →
      ofValue role a = .ok e → e.IsLegible := by
    intro role hrole hspread he
    rw [ofValue] at he
    split at he
    · obtain rfl := Except.ok.inj he
      exact legible_of_role hname hrole hspread fun p hp => by cases hp
    · obtain rfl := Except.ok.inj he
      exact legible_of_role hname hrole hspread fun p hp => by cases hp
    · split at he
      · cases he
      · rename_i path hpath
        obtain rfl := Except.ok.inj he
        refine legible_of_role hname hrole hspread fun p hp => ?_
        obtain rfl := Content.bound.inj hp
        exact (Path.parse_spec hpath).1
    · cases he
  rw [ofAttr] at he
  split at he
  · rename_i hspread
    exact ofSpread_legible hname hspread he
  rename_i hspread
  split at he
  · rename_i hevent
    have hrole : Role.event = roleOf a.name := by rw [roleOf, if_neg hspread, if_pos hevent]
    have hother : Role.event ≠ .spread := by decide
    rw [ofEvent] at he
    split at he
    · obtain rfl := Except.ok.inj he
      exact legible_of_role hname hrole hother fun p hp => by cases hp
    · split at he
      · cases he
      · rename_i path hpath
        obtain rfl := Except.ok.inj he
        refine legible_of_role hname hrole hother fun p hp => ?_
        obtain rfl := Content.bound.inj hp
        exact (Path.parse_spec hpath).1
  rename_i hevent
  rw [if_neg (by simp)] at he
  split at he
  · rename_i hclass
    exact hvalue (by rw [roleOf, if_neg hspread, if_neg hevent, if_pos hclass]) (by decide) he
  · rename_i hclass
    exact hvalue (by rw [roleOf, if_neg hspread, if_neg hevent, if_neg hclass]) (by decide) he

end Entry

/-- How the value of an attribute is listed behind its name. -/
def Content.shown : Content → Text
  | .nothing => "=%!q(<nil>)"
  | .flag => []
  | .literal t => "=" ++ t.quoted
  | .bound path => "=" ++ Program.Op.pathText path

/-- The bytes that end a name in a listing. -/
def endsLabel (b : UInt8) : Bool := b == 0x20 || b == 0x0A || b == 0x3D

theorem not_endsLabel {t : Text} (ht : t.IsUnbroken) : ∀ b ∈ t, endsLabel b = false := by
  intro b hb
  obtain ⟨hspace, hlf, hequals, -⟩ := ht.bytes b hb
  simp [endsLabel, hspace, hlf, hequals]

/-- How a value is listed determines it and where it ends, if a blank or nothing follows. -/
theorem Content.shown_append_inj {c d : Content} (hc : ∀ p, c = .bound p → p.IsLegible)
    (hd : ∀ p, d = .bound p → p.IsLegible) {s t : Text} (hs : s.Halts (· == 0x20))
    (ht : t.Halts (· == 0x20)) (heq : c.shown ++ s = d.shown ++ t) : c = d ∧ s = t := by
  have hequals : ∀ {u v : Text}, u.Halts (· == 0x20) → u ≠ 0x3D :: v := by
    rintro u v hu rfl
    exact absurd (hu 0x3D rfl) (by decide)
  -- The byte behind the equals sign tells how the value is given.
  have hsecond := congrArg (fun u : Text => u[1]?) heq
  cases c with
  | flag =>
    cases d with
    | flag => exact ⟨rfl, heq⟩
    | nothing => exact absurd heq (hequals hs)
    | literal w => exact absurd heq (hequals hs)
    | bound q => exact absurd heq (hequals hs)
  | nothing =>
    cases d with
    | flag => exact absurd heq.symm (hequals ht)
    | nothing => exact ⟨rfl, List.append_cancel_left heq⟩
    | literal w => exact absurd (Option.some.inj hsecond) (by decide)
    | bound q => exact absurd (Option.some.inj hsecond) (by decide)
  | literal w =>
    cases d with
    | flag => exact absurd heq.symm (hequals ht)
    | nothing => exact absurd (Option.some.inj hsecond) (by decide)
    | literal w' =>
      obtain ⟨rfl, hst⟩ := Text.quoted_append_inj (List.cons.inj heq).2
      exact ⟨rfl, hst⟩
    | bound q => exact absurd (Option.some.inj hsecond) (by decide)
  | bound p =>
    cases d with
    | flag => exact absurd heq.symm (hequals ht)
    | nothing => exact absurd (Option.some.inj hsecond) (by decide)
    | literal w => exact absurd (Option.some.inj hsecond) (by decide)
    | bound q =>
      obtain ⟨rfl, hst⟩ := Path.pathText_append_inj (hc p rfl) (hd q rfl) (List.cons.inj heq).2
      exact ⟨rfl, hst⟩

theorem Content.lineFeed_not_mem_shown {c : Content} (hc : ∀ p, c = .bound p → p.IsLegible) :
    0x0A ∉ c.shown := by
  cases c with
  | nothing => decide
  | flag => decide
  | literal t =>
    intro hmem
    rcases List.mem_cons.mp hmem with hmem | hmem
    · exact absurd hmem (by decide)
    · exact Text.lineFeed_not_mem_quoted t hmem
  | bound p =>
    intro hmem
    rcases List.mem_cons.mp hmem with hmem | hmem
    · exact absurd hmem (by decide)
    · exact Path.lineFeed_not_mem_pathText (hc p rfl) hmem

namespace Entry

variable {e f : Entry}

theorem tidied_of_ne (he : e.role ≠ .spread) : e.tidied = e := if_neg he

theorem IsLegible.name_tidied (he : e.IsLegible) (hspread : e.role = .spread) {p : Path}
    (hp : e.content = .bound p) : e.tidied.name = spreadMark ++ p.toText := by
  obtain ⟨q, hq, htrim⟩ := he.spread hspread
  obtain rfl := Content.bound.inj (hp.symm.trans hq)
  rw [tidied, if_pos hspread, htrim]

/-- An attribute is listed by its tidied name, and by its value unless it is spread. -/
theorem IsLegible.toText_eq (he : e.IsLegible) :
    e.toText = e.tidied.name ++ if e.role = .spread then [] else e.content.shown := by
  by_cases hspread : e.role = .spread
  · obtain ⟨p, hp, -⟩ := he.spread hspread
    rw [he.name_tidied hspread hp, if_pos hspread, toText, hp, List.append_nil]
    exact if_pos hspread
  · rw [tidied_of_ne hspread, if_neg hspread, toText]
    cases hcontent : e.content with
    | nothing => rfl
    | flag => exact (List.append_nil _).symm
    | literal t =>
      dsimp only [Content.shown]
      rw [List.append_assoc]
    | bound p =>
      dsimp only [Content.shown, Program.Op.pathText]
      rw [if_neg hspread]
      simp
      rfl

theorem IsLegible.tidied_unbroken (he : e.IsLegible) : e.tidied.name.IsUnbroken := by
  by_cases hspread : e.role = .spread
  · obtain ⟨p, hp, -⟩ := he.spread hspread
    have hlegible := he.path p hp
    rw [he.name_tidied hspread hp]
    refine ⟨List.cons_ne_nil 0x2E _, ?_⟩
    have hbyte : ∀ {b : UInt8}, b < 0x80 → b ≠ 0x2E →
        CharClass.isIdentifier (Template.byteChar b) = false → b ∉ spreadMark ++ p.toText := by
      intro b hlow hdot hother hb
      rcases List.mem_append.mp hb with hb | hb
      · have hdots : b ∈ List.replicate 3 (0x2E : UInt8) := hb
        exact hdot (List.eq_of_mem_replicate hdots)
      · exact Path.not_mem_toText hlegible hlow hdot hother hb
    intro b hb
    refine ⟨?_, ?_, ?_, ?_⟩
    all_goals
      rintro rfl
      exact hbyte (by decide) (by decide) (by decide) hb
  · rw [tidied_of_ne hspread]
    exact he.name

theorem IsLegible.role_tidied (he : e.IsLegible) : e.role = roleOf e.tidied.name := by
  by_cases hspread : e.role = .spread
  · obtain ⟨p, hp, -⟩ := he.spread hspread
    have hmark : isSpread (spreadMark ++ p.toText) = true :=
      List.isPrefixOf_iff_prefix.mpr (List.prefix_append _ _)
    rw [he.name_tidied hspread hp, roleOf, if_pos hmark, hspread]
  · rw [tidied_of_ne hspread]
    exact he.role

/-- How an attribute is listed determines it, but for blanks around a path that it spreads, and where it
ends, if a blank or nothing follows. -/
theorem toText_append_inj (he : e.IsLegible) (hf : f.IsLegible) {s t : Text}
    (hs : s.Halts (· == 0x20)) (ht : t.Halts (· == 0x20)) (heq : e.toText ++ s = f.toText ++ t) :
    e.tidied = f.tidied ∧ s = t := by
  have hends : ∀ (c : Prop) [Decidable c] (content : Content) {u : Text}, u.Halts (· == 0x20) →
      Text.Halts endsLabel ((if c then [] else content.shown) ++ u) := by
    intro c _ content u hu
    have hblank : u.Halts endsLabel := by
      intro b hb
      simp [endsLabel, beq_iff_eq.mp (hu b hb)]
    split
    · exact hblank
    · cases content with
      | flag => exact hblank
      | nothing => exact Text.halts_cons rfl _
      | literal w => exact Text.halts_cons rfl _
      | bound p => exact Text.halts_cons rfl _
  rw [he.toText_eq, hf.toText_eq, List.append_assoc, List.append_assoc] at heq
  obtain ⟨hname, hrest⟩ := Text.append_inj_of_halts (not_endsLabel he.tidied_unbroken)
    (not_endsLabel hf.tidied_unbroken) (hends _ _ hs) (hends _ _ ht) heq
  have hrole : e.role = f.role := by rw [he.role_tidied, hf.role_tidied, hname]
  by_cases hspread : e.role = .spread
  · have hspread' := hrole.symm.trans hspread
    obtain ⟨p, hp, -⟩ := he.spread hspread
    obtain ⟨q, hq, -⟩ := hf.spread hspread'
    have htext : p.toText = q.toText := by
      rw [he.name_tidied hspread hp, hf.name_tidied hspread' hq] at hname
      exact List.append_cancel_left hname
    obtain rfl := Path.toText_inj (he.path p hp) (hf.path q hq) htext
    rw [if_pos hspread, if_pos hspread'] at hrest
    rw [tidied, if_pos hspread] at hname ⊢
    rw [tidied, if_pos hspread'] at hname ⊢
    refine ⟨?_, hrest⟩
    rw [Entry.mk.injEq]
    exact ⟨hrole, hname, hp.trans hq.symm⟩
  · have hspread' : f.role ≠ .spread := fun h => hspread (hrole.trans h)
    rw [if_neg hspread, if_neg hspread'] at hrest
    obtain ⟨hcontent, hst⟩ := Content.shown_append_inj he.path hf.path hs ht hrest
    rw [tidied_of_ne hspread, tidied_of_ne hspread'] at hname ⊢
    refine ⟨?_, hst⟩
    rw [Entry.mk.injEq]
    exact ⟨hrole, hname, hcontent⟩

theorem IsLegible.toText_ne_nil (he : e.IsLegible) : e.toText ≠ [] := by
  rw [he.toText_eq]
  intro hnil
  exact he.tidied_unbroken.ne_nil (List.append_eq_nil_iff.mp hnil).1

theorem IsLegible.lineFeed_not_mem_toText (he : e.IsLegible) : 0x0A ∉ e.toText := by
  rw [he.toText_eq]
  intro hmem
  rcases List.mem_append.mp hmem with hmem | hmem
  · exact (he.tidied_unbroken.bytes _ hmem).2.1 rfl
  · split at hmem
    · cases hmem
    · exact Content.lineFeed_not_mem_shown he.path hmem

end Entry

/-! ### Plans -/

namespace Plan

/-- A plan of tidied attributes. -/
def tidied (p : Plan) : Plan := { p with entries := p.entries.map Entry.tidied }

/-- A plan as it is compiled where there are no keys. -/
structure IsLegible (p : Plan) : Prop where
  key : p.key = none
  entries : ∀ e ∈ p.entries, e.IsLegible

theorem ofAttrs_legible {attrs : List Template.Attr} (hattrs : ∀ a ∈ attrs, a.name.IsUnbroken)
    {p : Plan} (hp : ofAttrs [] attrs = .ok p) : p.IsLegible := by
  induction attrs generalizing p with
  | nil =>
    obtain rfl := Except.ok.inj hp
    exact ⟨rfl, fun e he => absurd he List.not_mem_nil⟩
  | cons a rest ih =>
    rw [ofAttrs] at hp
    split at hp
    · cases hp
    · rename_i e he
      obtain ⟨others, hothers, rfl⟩ := ok_of_mapped.mp hp
      have hlegible := Entry.ofAttr_legible (hattrs a List.mem_cons_self) he
      have hrest := ih (fun b hb => hattrs b (List.mem_cons_of_mem a hb)) hothers
      have hrole : e.role ≠ .key := by
        rw [hlegible.role, roleOf]
        split
        · decide
        · split
          · decide
          · split <;> decide
      rw [cons, if_neg hrole]
      refine ⟨hrest.key, ?_⟩
      intro f hf
      rcases List.mem_cons.mp hf with rfl | hf
      · exact hlegible
      · exact hrest.entries f hf

/-- The part of a joined text behind its first part. -/
theorem exists_join_cons (part : Text) (parts : List Text) :
    ∃ rest, Text.join [0x20] (part :: parts) = part ++ rest ∧ rest.Halts (· == 0x20) ∧
      (parts = [] → rest = []) ∧ (parts ≠ [] → rest = 0x20 :: Text.join [0x20] parts) := by
  cases parts with
  | nil => exact ⟨[], (List.append_nil part).symm, Text.halts_nil _, fun _ => rfl, fun h => absurd rfl h⟩
  | cons next parts =>
    refine ⟨0x20 :: Text.join [0x20] (next :: parts), ?_, Text.halts_cons rfl _, ?_, fun _ => rfl⟩
    · rw [Text.join, List.append_assoc]
      · rfl
      · simp
    · intro hnil
      cases hnil

theorem map_tidied_inj {es fs : List Entry} (hes : ∀ e ∈ es, e.IsLegible)
    (hfs : ∀ f ∈ fs, f.IsLegible)
    (heq : Text.join [0x20] (es.map Entry.toText) = Text.join [0x20] (fs.map Entry.toText)) :
    es.map Entry.tidied = fs.map Entry.tidied := by
  have hnonempty : ∀ {f : Entry} {fs : List Entry}, f.IsLegible →
      Text.join [0x20] ((f :: fs).map Entry.toText) ≠ [] := by
    intro f fs hf hnil
    obtain ⟨rest, hjoin, -⟩ := exists_join_cons f.toText (fs.map Entry.toText)
    rw [List.map_cons, hjoin] at hnil
    exact hf.toText_ne_nil (List.append_eq_nil_iff.mp hnil).1
  induction es generalizing fs with
  | nil =>
    cases fs with
    | nil => rfl
    | cons f fs => exact absurd heq.symm (hnonempty (hfs f List.mem_cons_self))
  | cons e es ih =>
    cases fs with
    | nil => exact absurd heq (hnonempty (hes e List.mem_cons_self))
    | cons f fs =>
      obtain ⟨s, hjoin, hs, hnil, hcons⟩ := exists_join_cons e.toText (es.map Entry.toText)
      obtain ⟨t, hjoin', ht, hnil', hcons'⟩ := exists_join_cons f.toText (fs.map Entry.toText)
      rw [List.map_cons, List.map_cons, hjoin, hjoin'] at heq
      obtain ⟨hentry, hst⟩ := Entry.toText_append_inj (hes e List.mem_cons_self)
        (hfs f List.mem_cons_self) hs ht heq
      have hrest : es.map Entry.tidied = fs.map Entry.tidied := by
        by_cases hlast : es = []
        · by_cases hlast' : fs = []
          · rw [hlast, hlast']
          · rw [hnil (by simp [hlast]), hcons' (by simp [hlast'])] at hst
            cases hst
        · by_cases hlast' : fs = []
          · rw [hnil' (by simp [hlast']), hcons (by simp [hlast])] at hst
            cases hst
          · rw [hcons (by simp [hlast]), hcons' (by simp [hlast'])] at hst
            exact ih (fun e' he' => hes e' (List.mem_cons_of_mem e he'))
              (fun f' hf' => hfs f' (List.mem_cons_of_mem f hf')) (List.cons.inj hst).2
      rw [List.map_cons, List.map_cons, hentry, hrest]

theorem IsLegible.toText_eq {p : Plan} (hp : p.IsLegible) :
    p.toText = Text.join [0x20] (p.entries.map Entry.toText) := by
  rw [toText, hp.key]
  rfl

theorem IsLegible.lineFeed_not_mem_toText {p : Plan} (hp : p.IsLegible) : 0x0A ∉ p.toText := by
  rw [hp.toText_eq]
  intro hmem
  rcases Text.mem_join hmem with hmem | ⟨part, hpart, hmem⟩
  · exact absurd hmem (by decide)
  · obtain ⟨e, he, rfl⟩ := List.mem_map.mp hpart
    exact (hp.entries e he).lineFeed_not_mem_toText hmem

end Plan

end Attribute

/-! ### Operations -/

namespace Program

mutual

/-- An operation as it is compiled from a source where there are no keys. -/
def Op.IsLegible : Op → Prop
  | .open tag attrs _ => tag.IsUnbroken ∧ attrs.IsLegible
  | .void tag attrs _ => tag.IsUnbroken ∧ attrs.IsLegible
  | .close tag _ => tag.IsUnbroken
  | .literal .. => True
  | .bound path _ => path.IsLegible
  | .conditional test consequent alternate _ =>
    test.IsLegible ∧ LegibleIn consequent ∧ LegibleElse alternate
  | .iteration collection key value body _ =>
    collection.IsLegible ∧ key.IsVariable ∧ value.IsVariable ∧ LegibleIn body

def LegibleElse : Option (List Op) → Prop
  | none => True
  | some ops => LegibleIn ops

def LegibleIn : List Op → Prop
  | [] => True
  | op :: rest => op.IsLegible ∧ LegibleIn rest

end

/-- What a line shows of an element determines it. -/
theorem elementText_inj {tag tag' : Text} {attrs attrs' : Attribute.Plan} (htag : tag.IsUnbroken)
    (htag' : tag'.IsUnbroken) (hattrs : attrs.IsLegible) (hattrs' : attrs'.IsLegible)
    (heq : Op.elementText tag attrs = Op.elementText tag' attrs') :
    tag = tag' ∧ attrs.tidied = attrs'.tidied := by
  have hshape : ∀ (tag : Text) {attrs : Attribute.Plan}, attrs.IsLegible → ∃ rest,
      Op.elementText tag attrs = tag ++ rest ∧ Text.Halts Attribute.endsLabel rest ∧
        (attrs.entries = [] → rest = []) ∧ (attrs.entries ≠ [] → rest =
          0x20 :: 0x5B :: (Text.join [0x20] (attrs.entries.map Attribute.Entry.toText) ++ [0x5D])) := by
    intro tag attrs hattrs
    have hsize : attrs.size = attrs.entries.length := by
      rw [Attribute.Plan.size, hattrs.key]
      exact Nat.zero_add _
    rw [Op.elementText, hsize]
    by_cases hempty : attrs.entries = []
    · rw [if_pos (by simp [hempty])]
      exact ⟨[], (List.append_nil tag).symm, Text.halts_nil _, fun _ => rfl, fun h => absurd hempty h⟩
    · rw [if_neg (by simp [hempty]), hattrs.toText_eq]
      refine ⟨_, ?_, Text.halts_cons rfl _, fun h => absurd h hempty, fun _ => rfl⟩
      rw [List.append_assoc, List.append_assoc]
      rfl
  obtain ⟨rest, htext, hhalts, hnil, hcons⟩ := hshape tag hattrs
  obtain ⟨rest', htext', hhalts', hnil', hcons'⟩ := hshape tag' hattrs'
  rw [htext, htext'] at heq
  obtain ⟨rfl, hrest⟩ := Text.append_inj_of_halts (Attribute.not_endsLabel htag)
    (Attribute.not_endsLabel htag') hhalts hhalts' heq
  refine ⟨rfl, ?_⟩
  have hentries : attrs.entries.map Attribute.Entry.tidied =
      attrs'.entries.map Attribute.Entry.tidied := by
    by_cases hempty : attrs.entries = []
    · by_cases hempty' : attrs'.entries = []
      · rw [hempty, hempty']
      · rw [hnil hempty, hcons' hempty'] at hrest
        cases hrest
    · by_cases hempty' : attrs'.entries = []
      · rw [hnil' hempty', hcons hempty] at hrest
        cases hrest
      · rw [hcons hempty, hcons' hempty'] at hrest
        apply Attribute.Plan.map_tidied_inj hattrs.entries hattrs'.entries
        exact List.append_cancel_right (List.cons.inj (List.cons.inj hrest).2).2
  rw [Attribute.Plan.tidied, Attribute.Plan.tidied, hentries, hattrs.key, hattrs'.key]

namespace Op

/-- What a line shows of an operation behind its kind. -/
def detail : Op → Text
  | .open tag attrs _ => elementText tag attrs
  | .void tag attrs _ => elementText tag attrs
  | .close tag _ => tag
  | .literal value _ => value.quoted
  | .bound path _ => pathText path
  | .conditional test _ _ _ => pathText test
  | .iteration collection key value _ _ => pathText collection ++ " " ++ value ++ ", " ++ key

theorem toText_eq (op : Op) : op.toText = Text.ofString op.kindName ++ 0x20 :: op.detail := by
  cases op <;> exact List.append_assoc _ [0x20] _

/-- An operation as its line shows it: without its place and the programs inside it, its attributes
tidied. -/
def headline : Op → Op
  | .open tag attrs _ => .open tag attrs.tidied none
  | .void tag attrs _ => .void tag attrs.tidied none
  | .close tag _ => .close tag none
  | .literal value _ => .literal value none
  | .bound path _ => .bound path none
  | .conditional test _ _ _ => .conditional test [] none none
  | .iteration collection key value _ _ => .iteration collection key value [] none

theorem kindName_mem (op : Op) : op.kindName ∈ kindNames := by
  cases op <;> simp [kindName, kindNames]

theorem kindName_bytes (op : Op) : ∀ b ∈ Text.ofString op.kindName, (b == 0x20) = false := by
  have hall : ∀ s ∈ kindNames, (Text.ofString s).all (fun b => !(b == 0x20)) = true := by decide
  intro b hb
  simpa using List.all_eq_true.mp (hall _ op.kindName_mem) b hb

theorem kindName_inj {op op' : Op}
    (heq : Text.ofString op.kindName = Text.ofString op'.kindName) : op.kindName = op'.kindName := by
  have hall : ∀ s ∈ kindNames, ∀ t ∈ kindNames, Text.ofString s = Text.ofString t → s = t := by decide
  exact hall _ op.kindName_mem _ op'.kindName_mem heq

theorem loop_inj {key key' value value' : Text} (hvalue : value.IsVariable)
    (hvalue' : value'.IsVariable)
    (heq : (0x20 :: (value ++ Text.ofString ", " ++ key) : Text) =
      0x20 :: (value' ++ Text.ofString ", " ++ key')) : value = value' ∧ key = key' := by
  have hcomma : ∀ {t : Text}, t.IsVariable → ∀ b ∈ t, (b == 0x2C) = false := by
    intro t ht b hb
    apply beq_false_of_ne
    rintro rfl
    exact absurd (ht _ hb).2 (by decide)
  rw [List.append_assoc, List.append_assoc] at heq
  obtain ⟨hsame, hrest⟩ := Text.append_inj_of_halts (hcomma hvalue) (hcomma hvalue')
    (Text.halts_cons rfl _) (Text.halts_cons rfl _) (List.cons.inj heq).2
  exact ⟨hsame, (List.cons.inj (List.cons.inj hrest).2).2⟩

/-- The line of an operation determines what it shows. -/
theorem toText_inj {op op' : Op} (hop : op.IsLegible) (hop' : op'.IsLegible)
    (heq : op.toText = op'.toText) : op.headline = op'.headline := by
  rw [toText_eq, toText_eq] at heq
  obtain ⟨hkind, hrest⟩ := Text.append_inj_of_halts op.kindName_bytes op'.kindName_bytes
    (Text.halts_cons rfl _) (Text.halts_cons rfl _) heq
  have hdetail := (List.cons.inj hrest).2
  have hname := kindName_inj hkind
  -- Texts and paths that are shown as text are operations of the same kind.
  have hmarks : ∀ (value : Text) (path : Path), value.quoted ≠ pathText path := by
    intro value path heq
    exact absurd (List.cons.inj heq).1 (by decide)
  cases op <;> cases op' <;> simp only [kindName, String.reduceEq] at hname
  case «open».«open» tag attrs span tag' attrs' span' =>
    obtain ⟨rfl, hattrs⟩ := elementText_inj hop.1 hop'.1 hop.2 hop'.2 hdetail
    rw [headline, headline, hattrs]
  case void.void tag attrs span tag' attrs' span' =>
    obtain ⟨rfl, hattrs⟩ := elementText_inj hop.1 hop'.1 hop.2 hop'.2 hdetail
    rw [headline, headline, hattrs]
  case close.close tag span tag' span' =>
    obtain rfl : tag = tag' := hdetail
    rfl
  case literal.literal value span value' span' =>
    have hquoted : value.quoted ++ [] = value'.quoted ++ [] := congrArg (· ++ []) hdetail
    obtain ⟨rfl, -⟩ := Text.quoted_append_inj hquoted
    rfl
  case literal.bound value span path span' =>
    exact absurd hdetail (hmarks value path)
  case bound.literal path span value span' =>
    exact absurd hdetail.symm (hmarks value path)
  case bound.bound path span path' span' =>
    have hbraces : pathText path ++ [] = pathText path' ++ [] := congrArg (· ++ []) hdetail
    obtain ⟨rfl, -⟩ := Path.pathText_append_inj hop hop' hbraces
    rfl
  case conditional.conditional test _ _ _ test' _ _ _ =>
    have hbraces : pathText test ++ [] = pathText test' ++ [] := congrArg (· ++ []) hdetail
    obtain ⟨rfl, -⟩ := Path.pathText_append_inj hop.1 hop'.1 hbraces
    rfl
  case iteration.iteration collection key value _ _ collection' key' value' _ _ =>
    rw [detail, detail, List.append_assoc, List.append_assoc, List.append_assoc, List.append_assoc,
      List.append_assoc, List.append_assoc] at hdetail
    obtain ⟨rfl, hnames⟩ := Path.pathText_append_inj hop.1 hop'.1 hdetail
    obtain ⟨rfl, rfl⟩ := loop_inj hop.2.2.1 hop'.2.2.1 (by simpa using hnames)
    rfl

theorem lineFeed_not_mem_elementText {tag : Text} {attrs : Attribute.Plan} (htag : tag.IsUnbroken)
    (hattrs : attrs.IsLegible) : 0x0A ∉ elementText tag attrs := by
  have hname : 0x0A ∉ tag := fun hmem => (htag.bytes _ hmem).2.1 rfl
  rw [elementText]
  split
  · exact hname
  · intro hmem
    simp only [List.mem_append] at hmem
    rcases hmem with ((hmem | hmem) | hmem) | hmem
    · exact hname hmem
    · exact absurd hmem (by decide)
    · exact hattrs.lineFeed_not_mem_toText hmem
    · exact absurd hmem (by decide)

/-- An operation is listed on one line. -/
theorem lineFeed_not_mem_toText {op : Op} (hop : op.IsLegible) : 0x0A ∉ op.toText := by
  have hkind : ∀ s ∈ kindNames, 0x0A ∉ Text.ofString s := by decide
  have hvariable : ∀ {t : Text}, t.IsVariable → 0x0A ∉ t :=
    fun ht hmem => absurd (ht _ hmem).2 (by decide)
  have hdetail : 0x0A ∉ op.detail := by
    cases op with
    | «open» tag attrs span => exact lineFeed_not_mem_elementText hop.1 hop.2
    | void tag attrs span => exact lineFeed_not_mem_elementText hop.1 hop.2
    | close tag span => exact fun hmem => (hop.bytes _ hmem).2.1 rfl
    | literal value span => exact Text.lineFeed_not_mem_quoted value
    | bound path span => exact Path.lineFeed_not_mem_pathText hop
    | conditional test consequent alternate span => exact Path.lineFeed_not_mem_pathText hop.1
    | iteration collection key value body span =>
      intro hmem
      simp only [detail, List.mem_append] at hmem
      rcases hmem with (((hmem | hmem) | hmem) | hmem) | hmem
      · exact Path.lineFeed_not_mem_pathText hop.1 hmem
      · exact absurd hmem (by decide)
      · exact hvariable hop.2.2.1 hmem
      · exact absurd hmem (by decide)
      · exact hvariable hop.2.1 hmem
  rw [toText_eq]
  intro hmem
  rcases List.mem_append.mp hmem with hmem | hmem
  · exact hkind _ op.kindName_mem hmem
  · rcases List.mem_cons.mp hmem with hmem | hmem
    · exact absurd hmem (by decide)
    · exact hdetail hmem

/-- A line begins neither with a blank nor as the word `else` does. -/
theorem exists_toText (op : Op) : ∃ b t, op.toText = b :: t ∧ b ≠ 0x20 ∧ b ≠ 0x65 := by
  cases op <;> exact ⟨_, _, rfl, by decide, by decide⟩

end Op

end Program

end Stencil
