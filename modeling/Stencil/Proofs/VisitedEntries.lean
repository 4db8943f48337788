import Stencil.Proofs.Declarations
import Stencil.Proofs.References

/-!
# Visited entries

Going through the entries of a value and following a path into it are separate functions, each with its own
cases. They agree all the same: what is visited under a key is what the text of the key leads to. The keys are
those of the value, each once, in an order that does not depend on how a dictionary happens to be laid out.

There are two exceptions. The entries of a table are visited, but no path leads to one of them, and a reference to a
table changes nothing about either. And where the type of a key says what is shown in its place, the text of the
key is not the key. Two such keys, or two keys of a table, may have the same text, and then the order in which they
are visited does depend on how they are laid out.
-/

namespace Stencil

/-! ### Bytewise order -/

namespace Text

/-- Bytewise order: the first byte that differs decides, and a proper beginning comes first. -/
def Precedes (s t : Text) : Prop := List.Lex (fun a b => a < b) s t

theorem Precedes.asymm {s t : Text} (h : s.Precedes t) : ¬ t.Precedes s := by
  induction h with
  | nil => rintro ⟨⟩
  | rel hlt =>
    intro hback
    cases hback with
    | rel hgt => exact UInt8.lt_asymm hlt hgt
    | cons => exact UInt8.lt_irrefl _ hlt
  | cons _ ih =>
    intro hback
    cases hback with
    | rel hlt => exact UInt8.lt_irrefl _ hlt
    | cons hback => exact ih hback

theorem cons_le_cons {a b : UInt8} {s t : Text} :
    le (a :: s) (b :: t) = true ↔ a < b ∨ a = b ∧ le s t = true := by
  simp [le]

theorem le_trans (s t u : Text) (hst : s.le t = true) (htu : t.le u = true) : s.le u = true := by
  induction s generalizing t u with
  | nil => rfl
  | cons a s ih =>
    cases t with
    | nil => cases hst
    | cons b t =>
      cases u with
      | nil => cases htu
      | cons c u =>
        rw [cons_le_cons] at hst htu ⊢
        rcases hst with hab | ⟨rfl, hst⟩
        · rcases htu with hbc | ⟨rfl, _⟩
          · exact .inl (UInt8.lt_trans hab hbc)
          · exact .inl hab
        · exact htu.imp_right fun hrest => ⟨hrest.1, ih t u hst hrest.2⟩

theorem le_total (s t : Text) : (s.le t || t.le s) = true := by
  induction s generalizing t with
  | nil => rfl
  | cons a s ih =>
    cases t with
    | nil => rfl
    | cons b t =>
      rw [Bool.or_eq_true, cons_le_cons, cons_le_cons]
      by_cases hab : a = b
      · subst hab
        have hrest := ih t
        rw [Bool.or_eq_true] at hrest
        exact hrest.imp (fun h => .inr ⟨rfl, h⟩) (fun h => .inr ⟨rfl, h⟩)
      · exact (UInt8.lt_or_lt_of_ne hab).imp .inl .inl

theorem le_refl (s : Text) : s.le s = true := by
  have htotal := le_total s s
  rwa [Bool.or_self] at htotal

theorem precedes_of_le {s t : Text} (hle : s.le t = true) (hne : s ≠ t) : s.Precedes t := by
  induction s generalizing t with
  | nil =>
    cases t with
    | nil => exact absurd rfl hne
    | cons b t => exact .nil
  | cons a s ih =>
    cases t with
    | nil => cases hle
    | cons b t =>
      rcases cons_le_cons.mp hle with hab | ⟨rfl, hrest⟩
      · exact .rel hab
      · exact .cons (ih hrest fun heq => hne (congrArg (a :: ·) heq))

end Text

/-! ### Integers are read back -/

namespace Number

theorem toNat_of_isDigit {c : Char} (hdigit : c.isDigit = true) : 48 ≤ c.toNat ∧ c.toNat ≤ 57 := by
  have hbounds : (decide (c.val ≥ '0'.val) && decide (c.val ≤ '9'.val)) = true := hdigit
  rw [Bool.and_eq_true, decide_eq_true_eq, decide_eq_true_eq] at hbounds
  exact ⟨UInt32.le_iff_toNat_le.mp hbounds.1, UInt32.le_iff_toNat_le.mp hbounds.2⟩

theorem utf8_of_isDigit {c : Char} (hdigit : c.isDigit = true) :
    String.utf8EncodeChar c = [UInt8.ofNat c.toNat] := by
  have hbounds := toNat_of_isDigit hdigit
  have hsmall : c.val.toNat ≤ 127 := by
    change c.toNat ≤ 127
    omega
  exact if_pos hsmall

theorem ofNat_eq (n : Nat) : Text.ofNat n = (Nat.toDigits 10 n).map fun c => UInt8.ofNat c.toNat := by
  have hencode : ∀ cs : List Char, (∀ c ∈ cs, c.isDigit = true) →
      cs.flatMap String.utf8EncodeChar = cs.map fun c => UInt8.ofNat c.toNat := by
    intro cs hcs
    induction cs with
    | nil => rfl
    | cons c cs ih =>
      rw [List.flatMap_cons, utf8_of_isDigit (hcs c List.mem_cons_self),
        ih fun d hd => hcs d (List.mem_cons_of_mem c hd), List.map_cons, List.singleton_append]
  calc Text.ofNat n
      = (String.ofList (Nat.toDigits 10 n)).toByteArray.data.toList := rfl
    _ = (Nat.toDigits 10 n).utf8Encode.data.toList := by rw [String.toByteArray_ofList]
    _ = (Nat.toDigits 10 n).flatMap String.utf8EncodeChar := List.toList_data_toByteArray
    _ = (Nat.toDigits 10 n).map fun c => UInt8.ofNat c.toNat :=
        hencode _ fun c hc => Nat.isDigit_of_mem_toDigits (by omega) (by omega) hc

theorem toNat_digitByte {c : Char} (hdigit : c.isDigit = true) : (UInt8.ofNat c.toNat).toNat = c.toNat := by
  have hbounds := toNat_of_isDigit hdigit
  exact UInt8.toNat_ofNat_of_lt (Nat.lt_of_le_of_lt hbounds.2 (by decide))

theorem isDigits_ofNat (n : Nat) : isDigits (Text.ofNat n) = true := by
  have hne : Text.ofNat n ≠ [] := by
    rw [ofNat_eq, Ne, List.map_eq_nil_iff]
    exact Nat.toDigits_ne_nil
  have hall : ∀ b ∈ Text.ofNat n, isDigitByte b = true := by
    rw [ofNat_eq]
    intro b hb
    obtain ⟨c, hc, rfl⟩ := List.mem_map.mp hb
    have hdigit := Nat.isDigit_of_mem_toDigits (by omega) (by omega) hc
    have hbounds := toNat_of_isDigit hdigit
    rw [isDigitByte, Bool.and_eq_true, decide_eq_true_eq, decide_eq_true_eq, UInt8.le_iff_toNat_le,
      UInt8.le_iff_toNat_le, toNat_digitByte hdigit]
    exact hbounds
  rw [isDigits, Bool.and_eq_true, Bool.not_eq_true', List.isEmpty_eq_false_iff, List.all_eq_true]
  exact ⟨hne, hall⟩

theorem ofDigits_ofNat (n : Nat) : ofDigits (Text.ofNat n) = n := by
  have hread : ∀ (cs : List Char) (start : Nat), (∀ c ∈ cs, c.isDigit = true) →
      (cs.map fun c => UInt8.ofNat c.toNat).foldl (fun n b => n * 10 + (b.toNat - 48)) start =
        Nat.ofDigitChars 10 cs start := by
    intro cs
    induction cs with
    | nil => exact fun _ _ => rfl
    | cons c cs ih =>
      intro start hcs
      rw [List.map_cons, List.foldl_cons, ih _ fun d hd => hcs d (List.mem_cons_of_mem c hd),
        toNat_digitByte (hcs c List.mem_cons_self), Nat.ofDigitChars_cons, Nat.mul_comm]
      rfl
  rw [ofDigits, ofNat_eq, hread _ 0 fun c hc => Nat.isDigit_of_mem_toDigits (by omega) (by omega) hc,
    Nat.ofDigitChars_toDigits (by omega) (by omega)]

theorem takeSign_of_isDigits {t : Text} (ht : isDigits t = true) : takeSign t = (false, t) := by
  have hnot : ∀ {b : UInt8} {rest : Text}, t = b :: rest → isDigitByte b = true := by
    rintro b rest rfl
    rw [isDigits, Bool.and_eq_true, List.all_cons, Bool.and_eq_true] at ht
    exact ht.2.1
  rw [takeSign.eq_def]
  split
  · cases hnot rfl
  · cases hnot rfl
  · rfl

theorem parseInt?_ofInt (n : Int) : parseInt? (Text.ofInt n) = some n := by
  cases n with
  | ofNat n =>
    rw [Text.ofInt, parseInt?, takeSign_of_isDigits (isDigits_ofNat n)]
    dsimp only
    rw [if_pos (isDigits_ofNat n), ofDigits_ofNat]
    rfl
  | negSucc n =>
    rw [Text.ofInt, parseInt?, takeSign]
    dsimp only
    rw [if_pos (isDigits_ofNat (n + 1)), ofDigits_ofNat]
    rfl

theorem ofInt_inj {m n : Int} (h : Text.ofInt m = Text.ofInt n) : m = n := by
  have hread := parseInt?_ofInt m
  rw [h, parseInt?_ofInt] at hread
  exact (Option.some.inj hread).symm

end Number

namespace Value

/-! ### Sorting by text -/

section ByText

variable {es others : List (Value × Value)}

theorem perm_byText (es : List (Value × Value)) : (byText es).Perm es := List.mergeSort_perm _ _

theorem pairwise_byText (es : List (Value × Value)) :
    (byText es).Pairwise fun a b => a.1.shown.le b.1.shown = true :=
  List.pairwise_mergeSort (fun a b c => Text.le_trans a.1.shown b.1.shown c.1.shown)
    (fun a b => Text.le_total a.1.shown b.1.shown) es

/-- Entries whose keys have the same text stay in their order. -/
theorem filter_byText (es : List (Value × Value)) (t : Text) :
    ((byText es).filter fun e => e.1.shown = t) = es.filter fun e => e.1.shown = t := by
  have hsame : (es.filter fun e => e.1.shown = t).Pairwise fun a b => a.1.shown.le b.1.shown = true := by
    apply List.pairwise_of_forall_mem_list
    intro a ha b hb
    rw [List.mem_filter, decide_eq_true_eq] at ha hb
    rw [ha.2, hb.2]
    exact Text.le_refl t
  have hsublist : (es.filter fun e => e.1.shown = t).Sublist (byText es) :=
    List.sublist_mergeSort (fun a b c => Text.le_trans a.1.shown b.1.shown c.1.shown)
      (fun a b => Text.le_total a.1.shown b.1.shown) hsame List.filter_sublist
  have hfiltered := hsublist.filter fun e => decide (e.1.shown = t)
  simp only [List.filter_filter, Bool.and_self] at hfiltered
  exact (hfiltered.eq_of_length ((perm_byText es).filter _).length_eq.symm).symm

/-- No two keys have the same text. -/
def TextsDiffer (es : List (Value × Value)) : Prop := (es.map fun e => e.1.shown).Nodup

theorem TextsDiffer.of_perm (hes : TextsDiffer es) (hperm : es.Perm others) : TextsDiffer others :=
  (hperm.map fun e : Value × Value => e.1.shown).nodup_iff.mp hes

theorem TextsDiffer.pairwise_byText (hes : TextsDiffer es) :
    (byText es).Pairwise fun a b => a.1.shown.Precedes b.1.shown :=
  (Value.pairwise_byText es).imp₂ (fun _ _ => Text.precedes_of_le)
    (List.pairwise_map.mp (hes.of_perm (perm_byText es).symm))

theorem byText_eq_of_perm (hperm : es.Perm others) (hes : TextsDiffer es) : byText es = byText others := by
  refine List.Perm.eq_of_pairwise ?_ hes.pairwise_byText (hes.of_perm hperm).pairwise_byText ?_
  · intro a b _ _ hab hba
    exact absurd hba hab.asymm
  · exact (perm_byText es).trans (hperm.trans (perm_byText others).symm)

end ByText

/-- These entries in the bytewise order of the texts of their keys, those with the same text as they stand. -/
structure InTextOrder (visited es : List (Value × Value)) : Prop where
  perm : visited.Perm es
  sorted : visited.Pairwise fun a b => a.1.shown = b.1.shown ∨ a.1.shown.Precedes b.1.shown
  stable : ∀ t, (visited.filter fun e => e.1.shown = t) = es.filter fun e => e.1.shown = t

theorem inTextOrder_byText (es : List (Value × Value)) : InTextOrder (byText es) es := by
  refine ⟨perm_byText es, (pairwise_byText es).imp ?_, filter_byText es⟩
  intro a b hle
  by_cases hsame : a.1.shown = b.1.shown
  · exact .inl hsame
  · exact .inr (Text.precedes_of_le hle hsame)

/-! ### Collections -/

/-- No two entries of a map or a dictionary have the same key. -/
def KeyedOnce : Value → Prop
  | .map es | .dict _ es => (es.map Prod.fst).Nodup
  | .ref target => target.KeyedOnce
  | _ => True

/-- What has entries: an ordered map, and a list, a dictionary or a table, also through references. -/
inductive IsCollection : Value → Prop
  | map (es : List (Text × Value)) : IsCollection (.map es)
  | list {v : Value} {kind : ListKind} {items : List Value} (hv : v.LeadsTo (.list kind items)) : IsCollection v
  | dict {v : Value} {kind : DictKind} {es : List (Text × Value)} (hv : v.LeadsTo (.dict kind es)) :
      IsCollection v
  | table {v : Value} {type : Text} {es : List (Value × Value)} (hv : v.LeadsTo (.table type es)) : IsCollection v

/-- The same dictionary or table, whose entries are given in another order, and references to it. -/
inductive Reordered : Value → Value → Prop
  | dict (kind : DictKind) {es others : List (Text × Value)} (hperm : es.Perm others) :
      Reordered (.dict kind es) (.dict kind others)
  | table (type : Text) {es others : List (Value × Value)} (hperm : es.Perm others) :
      Reordered (.table type es) (.table type others)
  | ref {v w : Value} (hvw : Reordered v w) : Reordered (.ref v) (.ref w)

theorem LeadsTo.keyedOnce {v w : Value} (h : v.LeadsTo w) (hv : v.KeyedOnce) : w.KeyedOnce := by
  induction h with
  | here => exact hv
  | ref _ ih => exact ih hv

theorem LeadsTo.followed_eq {v w : Value} (h : v.LeadsTo w) (hw : w.behind = w) (hself : w.followed = w) :
    v.followed = w := by
  cases h with
  | here => exact hself
  | ref htarget => exact htarget.behind_eq.trans hw

/-- What is found by following references is what they lead to, unless it is a record. -/
theorem leadsTo_followed {v w : Value} (h : v.followed = w) (hw : ∀ type fields, w ≠ .record type fields) :
    v.LeadsTo w := by
  cases hv : v.isVeiled with
  | false => exact leadsTo_behind ((behind_eq_followed hv).trans h) hw
  | true =>
    cases v with
    | map es => exact h ▸ .here _
    | overlay parent bindings => exact h ▸ .here _
    | _ => cases hv

/-- An ordered map is found only where it stands itself. -/
theorem eq_map_of_followed {v : Value} {es : List (Text × Value)} (h : v.followed = .map es) : v = .map es := by
  cases leadsTo_followed h (by rintro type fields ⟨⟩) with
  | here => rfl
  | ref htarget =>
    have hbehind := htarget.behind_eq
    rw [followed] at h
    rw [h] at hbehind
    cases hbehind

/-! ### The keys of a dictionary -/

/-- A key that is shown as it is. -/
def IsItsText : Value → Prop
  | .titled _ t title => title = t
  | _ => True

theorem shown_keyOf (kind : DictKind) (key : Text) : (keyOf kind key).shown = kind.title key := by
  cases kind <;> rfl

theorem toText_keyOf {kind : DictKind} {key : Text} (hkey : (keyOf kind key).IsItsText) :
    (keyOf kind key).toText = key := by
  cases kind with
  | titled type title => exact hkey
  | _ => rfl

theorem keyOf_inj {kind : DictKind} {key other : Text} (h : keyOf kind key = keyOf kind other) : key = other := by
  cases kind with
  | any => exact Value.text.inj h
  | ints => exact Value.text.inj h
  | named type => exact (Value.name.inj h).2
  | titled type title => exact (Value.titled.inj h).2.1

/-- The keys of a dictionary have different texts where the type of the keys does not say what is shown. -/
theorem textsDiffer_dict {kind : DictKind} {es : List (Text × Value)} (hes : (es.map Prod.fst).Nodup)
    (hkind : ∀ type title, kind ≠ .titled type title) : TextsDiffer (es.map fun e => (keyOf kind e.1, e.2)) := by
  have htitle : kind.title = id := by
    cases kind with
    | titled type title => exact absurd rfl (hkind type title)
    | _ => rfl
  rw [TextsDiffer, List.map_map]
  refine List.pairwise_map.mpr ((List.pairwise_map.mp hes).imp ?_)
  intro a b hne hsame
  rw [Function.comp_apply, Function.comp_apply, shown_keyOf, shown_keyOf, htitle] at hsame
  exact hne hsame

/-- Different whole numbers have different texts. -/
theorem textsDiffer_ints {es : List (Value × Value)} (hes : (es.map Prod.fst).Nodup)
    (hints : ∀ e ∈ es, ∃ n, e.1 = .int n) : TextsDiffer es := by
  refine List.pairwise_map.mpr ((List.pairwise_map.mp hes).imp_of_mem ?_)
  intro a b ha hb hne hsame
  obtain ⟨m, hm⟩ := hints a ha
  obtain ⟨n, hn⟩ := hints b hb
  rw [hm, hn] at hsame hne
  exact hne (congrArg Value.int (Number.ofInt_inj hsame))

/-! ### The entries of each kind of collection -/

theorem entries_of_followed {v w : Value} (h : v.followed = w) (hw : w.followed = w) : v.entries = w.entries := by
  rw [entries, entries, h, hw]

theorem indexed_eq (n : Nat) (items : List Value) :
    indexed n items = (items.zipIdx n).map fun item => (.int item.2, item.1) := by
  induction items generalizing n with
  | nil => rfl
  | cons v rest ih => rw [indexed, ih, List.zipIdx_cons, List.map_cons]

theorem entries_list {v : Value} {kind : ListKind} {items : List Value} (h : v.LeadsTo (.list kind items)) :
    v.entries = items.zipIdx.map fun item => (.int item.2, item.1) :=
  (entries_of_followed (h.followed_eq rfl rfl) rfl).trans (indexed_eq 0 items)

theorem entries_dict {v : Value} {kind : DictKind} {es : List (Text × Value)} (h : v.LeadsTo (.dict kind es)) :
    v.entries = byText (es.map fun e => (keyOf kind e.1, e.2)) :=
  entries_of_followed (h.followed_eq rfl rfl) rfl

theorem entries_table {v : Value} {type : Text} {es : List (Value × Value)} (h : v.LeadsTo (.table type es)) :
    v.entries = byText es :=
  entries_of_followed (h.followed_eq rfl rfl) rfl

theorem entries_of_not_isCollection {v : Value} (hv : ¬ v.IsCollection) : v.entries = [] := by
  rw [entries]
  split
  · rename_i es hes
    exact absurd (.map es) (eq_map_of_followed hes ▸ hv)
  · rename_i kind items hitems
    exact absurd (.list (leadsTo_followed hitems (by rintro type fields ⟨⟩))) hv
  · rename_i kind es hes
    exact absurd (.dict (leadsTo_followed hes (by rintro type fields ⟨⟩))) hv
  · rename_i type es hes
    exact absurd (.table (leadsTo_followed hes (by rintro type fields ⟨⟩))) hv
  · rfl

theorem Reordered.isVeiled_eq_false {v w : Value} (h : v.Reordered w) :
    v.isVeiled = false ∧ w.isVeiled = false := by
  cases h <;> exact ⟨rfl, rfl⟩

theorem entries_reordered {v w : Value} (h : v.Reordered w) (hv : TextsDiffer v.entries) : w.entries = v.entries := by
  induction h with
  | dict kind hperm =>
    exact (byText_eq_of_perm (hperm.map _) (hv.of_perm (perm_byText _))).symm
  | table type hperm =>
    exact (byText_eq_of_perm hperm (hv.of_perm (perm_byText _))).symm
  | ref hvw ih =>
    obtain ⟨hv', hw'⟩ := hvw.isVeiled_eq_false
    rw [entries_ref hv'] at hv
    rw [entries_ref hv', entries_ref hw', ih hv]

/-! ### Paths to the entries -/

theorem resolve_of_followed {v w : Value} (h : v.LeadsTo w) (hw : w.behind = w) (hself : w.followed = w)
    (hveiled : w.isVeiled = false) (segment : Text) : resolve [segment] v = w.member segment := by
  have hv : v.isVeiled = false := by
    cases h with
    | here => exact hveiled
    | ref => rfl
  calc resolve [segment] v
      = access segment v := rfl
    _ = v.followed.member segment := access_eq_member hv segment
    _ = w.member segment := by rw [h.followed_eq hw hself]

theorem resolve_of_mem_map {es : List (Text × Value)} (hes : (es.map Prod.fst).Nodup) {e : Value × Value}
    (he : e ∈ (Value.map es).entries) : resolve [e.1.toText] (.map es) = e.2 := by
  obtain ⟨⟨name, value⟩, hmem, rfl⟩ := List.mem_map.mp he
  change (Entries.get? name es).getD .missing = value
  rw [Entries.get?_of_mem hes hmem, Option.getD_some]

theorem resolve_of_mem_list {v : Value} {kind : ListKind} {items : List Value}
    (h : v.LeadsTo (.list kind items)) {e : Value × Value} (he : e ∈ v.entries) :
    resolve [e.1.toText] v = e.2 := by
  rw [entries_list h] at he
  obtain ⟨⟨item, n⟩, hmem, rfl⟩ := List.mem_map.mp he
  have hitem : items[n]? = some item := List.mem_zipIdx_iff_getElem?.mp hmem
  have hindex : Number.parseInt? (Value.int n).toText = some (.ofNat n) := Number.parseInt?_ofInt n
  rw [resolve_of_followed h rfl rfl rfl, member, itemAt, hindex]
  change items[n]?.getD .missing = item
  rw [hitem, Option.getD_some]

theorem resolve_of_mem_dict {v : Value} {kind : DictKind} {es : List (Text × Value)}
    (h : v.LeadsTo (.dict kind es)) (hv : v.KeyedOnce) {e : Value × Value} (he : e ∈ v.entries)
    (hkey : e.1.IsItsText) : resolve [e.1.toText] v = e.2 := by
  rw [entries_dict h, (perm_byText _).mem_iff] at he
  obtain ⟨⟨name, value⟩, hmem, rfl⟩ := List.mem_map.mp he
  rw [resolve_of_followed h rfl rfl rfl, toText_keyOf hkey]
  change (Entries.get? name es).getD .missing = value
  rw [Entries.get?_of_mem (h.keyedOnce hv) hmem, Option.getD_some]

theorem resolve_table {v : Value} {type : Text} {es : List (Value × Value)} (h : v.LeadsTo (.table type es))
    (segment : Text) : resolve [segment] v = .missing :=
  resolve_of_followed h rfl rfl rfl segment

theorem resolve_of_mem_entries {v : Value} (hv : v.KeyedOnce) (htable : ∀ type es, ¬ v.LeadsTo (.table type es))
    {e : Value × Value} (he : e ∈ v.entries) (hkey : e.1.IsItsText) : resolve [e.1.toText] v = e.2 := by
  have hcollection : v.IsCollection := by
    apply Classical.byContradiction
    intro hnone
    rw [entries_of_not_isCollection hnone] at he
    cases he
  cases hcollection with
  | map es => exact resolve_of_mem_map hv he
  | list h => exact resolve_of_mem_list h he
  | dict h => exact resolve_of_mem_dict h hv he hkey
  | table h => exact absurd h (htable _ _)

theorem byText_singleton (e : Value × Value) : byText [e] = [e] := List.mergeSort_singleton _

theorem not_forall_resolve_of_entries_eq {v : Value} {e : Value × Value} (hv : v.entries = [e])
    (he : resolve [e.1.toText] v ≠ e.2) : ¬ ∀ e ∈ v.entries, resolve [e.1.toText] v = e.2 := by
  intro hresolve
  rw [hv] at hresolve
  exact he (hresolve e List.mem_cons_self)

end Value

end Stencil
