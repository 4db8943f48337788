import Stencil.Proofs.FreeNames

/-!
# References

References are followed wherever something is asked of a value: what a path leads to, which entries it has, and
whether it is a mapping. So a reference answers as its target does, with two exceptions. An ordered map and an
overlay are known for what they are only where they stand themselves. Behind a reference they are records, and
then the map shows nothing and the overlay the two values it is made of.

That both are real exceptions is plain for a map, which is no longer a mapping. For an overlay it takes an
argument about size: a segment leads to something smaller, or nowhere, so no overlay can be searched for its own
parts and give exactly these.
-/

namespace Stencil.Value

/-- A value, and what it leads to through any number of references. -/
inductive LeadsTo : Value → Value → Prop
  | here (v : Value) : LeadsTo v v
  | ref {target v : Value} (htarget : LeadsTo target v) : LeadsTo (.ref target) v

/-- Whether a value is seen as a record behind a reference, although it is none. -/
def isVeiled : Value → Bool
  | .map _ | .overlay _ _ => true
  | _ => false

theorem LeadsTo.behind_eq {v w : Value} (h : v.LeadsTo w) : v.behind = w.behind := by
  induction h with
  | here => rfl
  | ref _ ih => exact ih

theorem LeadsTo.sizeOf_le {v w : Value} (h : v.LeadsTo w) : sizeOf w ≤ sizeOf v := by
  induction h with
  | here => exact Nat.le_refl _
  | ref _ ih =>
    rw [Value.ref.sizeOf_spec]
    omega

/-- What is found behind references is what they lead to, unless it is a record. -/
theorem leadsTo_behind {v w : Value} (h : v.behind = w) (hw : ∀ type fields, w ≠ .record type fields) :
    v.LeadsTo w := by
  match v with
  | .ref target => exact .ref (leadsTo_behind (v := target) h hw)
  | .map _ => exact absurd h.symm (hw _ _)
  | .overlay _ _ => exact absurd h.symm (hw _ _)
  | .null | .missing | .bool _ | .text _ | .name _ _ | .titled _ _ _ | .label _ _ | .time _ | .int _ | .whole _ _
  | .real _ _ | .complex _ _ | .list _ _ | .dict _ _ | .table _ _ | .nowhere _ | .absent _ | .record _ _ | .func =>
    subst h
    exact .here _

/-! ### Where references do not matter -/

theorem behind_eq_followed {v : Value} (hv : v.isVeiled = false) : v.behind = v.followed := by
  cases v with
  | map es => cases hv
  | overlay parent bindings => cases hv
  | _ => rfl

theorem access_eq_member {v : Value} (hv : v.isVeiled = false) (segment : Text) :
    access segment v = v.followed.member segment := by
  cases v with
  | map es => cases hv
  | overlay parent bindings => cases hv
  | _ => rfl

theorem resolve_ref {v : Value} (hv : v.isVeiled = false) {path : Path} (hpath : path ≠ []) :
    resolve path (.ref v) = resolve path v := by
  cases path with
  | nil => exact absurd rfl hpath
  | cons segment rest =>
    have haccess : access segment (.ref v) = access segment v := by
      rw [access_eq_member hv, ← behind_eq_followed hv, access]
    exact congrArg (resolve rest) haccess

theorem entries_ref {v : Value} (hv : v.isVeiled = false) : (Value.ref v).entries = v.entries := by
  rw [entries, entries, followed, behind_eq_followed hv]

theorem isMapping_ref {v : Value} (hv : v.isVeiled = false) : (Value.ref v).isMapping = v.isMapping := by
  rw [isMapping, isMapping, followed, behind_eq_followed hv]

/-! ### Segments lead to something smaller -/

theorem sizeOf_lt_of_mem_entries {name : Text} {found : Value} {es : List (Text × Value)}
    (hmem : (name, found) ∈ es) : sizeOf found < sizeOf es := by
  have hentry := List.sizeOf_lt_of_mem hmem
  rw [Prod.mk.sizeOf_spec] at hentry
  omega

theorem sizeOf_lt_of_get? {name : Text} {found : Value} {es : List (Text × Value)}
    (hget : Entries.get? name es = some found) : sizeOf found < sizeOf es :=
  sizeOf_lt_of_mem_entries (Entries.mem_of_get? hget)

theorem one_le_sizeOf (v : Value) : 1 ≤ sizeOf v := by
  cases v <;> simp +arith

theorem sizeOf_lt_of_mem_fields {reach : Reach} {name : Text} {found : Value}
    {fields : List (Reach × Text × Value)} (hmem : (reach, name, found) ∈ fields) :
    sizeOf found < sizeOf fields := by
  have hfield := List.sizeOf_lt_of_mem hmem
  rw [Prod.mk.sizeOf_spec, Prod.mk.sizeOf_spec] at hfield
  omega

theorem eq_missing_of_mem_mapFields {reach : Reach} {name : Text} {found : Value}
    (hmem : (reach, name, found) ∈ mapFields) : found = .missing := by
  simp only [mapFields, List.mem_cons, Prod.mk.injEq, List.not_mem_nil, or_false] at hmem
  rcases hmem with ⟨_, _, rfl⟩ | ⟨_, _, rfl⟩ <;> rfl

theorem sizeOf_lt_map {reach : Reach} {name : Text} {found : Value} (hmem : (reach, name, found) ∈ mapFields)
    (es : List (Text × Value)) : sizeOf found < sizeOf (Value.map es) := by
  rw [eq_missing_of_mem_mapFields hmem, Value.missing.sizeOf_spec, Value.map.sizeOf_spec]
  cases es <;> simp +arith

theorem sizeOf_lt_overlay {parent : Value} {bindings : Option (Entries Value)} {reach : Reach}
    {name : Text} {found : Value} (hmem : (reach, name, found) ∈ overlayFields parent bindings) :
    sizeOf found < sizeOf (Value.overlay parent bindings) := by
  have hparent := one_le_sizeOf parent
  rw [Value.overlay.sizeOf_spec]
  simp only [overlayFields, List.mem_cons, Prod.mk.injEq, List.not_mem_nil, or_false] at hmem
  rcases hmem with ⟨_, _, rfl⟩ | ⟨_, _, rfl⟩
  · omega
  · cases bindings with
    | none =>
      have hnone : sizeOf (ofBindings none) = 2 := rfl
      rw [hnone, Option.none.sizeOf_spec]
      omega
    | some es =>
      rw [ofBindings, Value.map.sizeOf_spec, Option.some.sizeOf_spec]
      omega

theorem sizeOf_lt_record {type : Text} {fields : List (Reach × Text × Value)} {reach : Reach} {name : Text}
    {found : Value} (hmem : (reach, name, found) ∈ fields) : sizeOf found < sizeOf (Value.record type fields) := by
  have hfound := sizeOf_lt_of_mem_fields hmem
  rw [Value.record.sizeOf_spec]
  omega

/-- The values of a record are smaller than what it is found behind. -/
theorem sizeOf_lt_of_behind {v : Value} {type : Text} {fields : List (Reach × Text × Value)}
    (h : v.behind = .record type fields) {reach : Reach} {name : Text} {found : Value}
    (hmem : (reach, name, found) ∈ fields) : sizeOf found < sizeOf v := by
  match v with
  | .ref target =>
    have htarget := sizeOf_lt_of_behind (v := target) h hmem
    rw [Value.ref.sizeOf_spec]
    omega
  | .map es =>
    obtain ⟨_, rfl⟩ := Value.record.inj h
    exact sizeOf_lt_map hmem es
  | .overlay parent bindings =>
    obtain ⟨_, rfl⟩ := Value.record.inj h
    exact sizeOf_lt_overlay hmem
  | .record type fields =>
    obtain ⟨_, rfl⟩ := Value.record.inj h
    exact sizeOf_lt_record hmem
  | .null | .missing | .bool _ | .text _ | .name _ _ | .titled _ _ _ | .label _ _ | .time _ | .int _ | .whole _ _
  | .real _ _ | .complex _ _ | .list _ _ | .dict _ _ | .table _ _ | .nowhere _ | .absent _ | .func => cases h

/-! ### What is embedded is smaller -/

theorem mem_flatten_alongside {α : Type} {a : α} {these others : List (List α)} :
    a ∈ (alongside these others).flatten ↔ a ∈ these.flatten ∨ a ∈ others.flatten := by
  induction these generalizing others with
  | nil => simp [alongside]
  | cons this these ih =>
    cases others with
    | nil => simp [alongside]
    | cons other others =>
      simp only [alongside, List.flatten_cons, List.mem_append, ih]
      grind

/-- What comes with all that is embedded in a record comes with one of its fields. -/
theorem exists_of_mem_embeddedLayers {fields : List (Reach × Text × Value)} {field : Reach × Text × Value}
    (hfield : field ∈ (embeddedLayers fields).flatten) :
    ∃ reach n v, (reach, n, v) ∈ fields ∧ field ∈ (layers v).flatten := by
  induction fields with
  | nil => cases hfield
  | cons first rest ih =>
    obtain ⟨reach, n, v⟩ := first
    have hrest : field ∈ (embeddedLayers rest).flatten →
        ∃ reach' n' v', (reach', n', v') ∈ (reach, n, v) :: rest ∧ field ∈ (layers v').flatten := by
      intro hlater
      obtain ⟨reach', n', v', hmem, hinner⟩ := ih hlater
      exact ⟨reach', n', v', List.mem_cons_of_mem _ hmem, hinner⟩
    have hcome : field ∈ (alongside (layers v) (embeddedLayers rest)).flatten →
        ∃ reach' n' v', (reach', n', v') ∈ (reach, n, v) :: rest ∧ field ∈ (layers v').flatten := by
      intro hboth
      rcases mem_flatten_alongside.mp hboth with hhere | hlater
      · exact ⟨reach, n, v, List.mem_cons_self, hhere⟩
      · exact hrest hlater
    cases reach with
    | embedded => exact hcome hfield
    | enclosed => exact hcome hfield
    | hidden => exact hrest hfield
    | «open» => exact hrest hfield

theorem eq_missing_of_mem_emptied {these : List (List (Reach × Text × Value))} {reach : Reach} {name : Text}
    {found : Value} (hmem : (reach, name, found) ∈ (these.map fun layer => layer.map emptied).flatten) :
    found = .missing := by
  simp only [List.mem_flatten, List.mem_map] at hmem
  obtain ⟨_, ⟨layer, _, rfl⟩, hfield⟩ := hmem
  obtain ⟨field, _, heq⟩ := List.mem_map.mp hfield
  exact congrArg (·.2.2) heq.symm

/-- What comes with an embedded value is smaller than it, at any depth. -/
theorem sizeOf_lt_of_mem_layers (v : Value) {reach : Reach} {name : Text} {found : Value}
    (hmem : (reach, name, found) ∈ (layers v).flatten) : sizeOf found < sizeOf v := by
  match v with
  | .record type fields =>
    rw [layers, List.flatten_cons, List.mem_append] at hmem
    rcases hmem with hown | hinner
    · exact sizeOf_lt_record hown
    · obtain ⟨reach', n, inner, hfield, hinner⟩ := exists_of_mem_embeddedLayers hinner
      have hlt := sizeOf_lt_of_mem_fields hfield
      have hfound := sizeOf_lt_of_mem_layers inner hinner
      rw [Value.record.sizeOf_spec]
      omega
  | .ref target =>
    have hfound := sizeOf_lt_of_mem_layers target hmem
    rw [Value.ref.sizeOf_spec]
    omega
  | .nowhere like =>
    have hlike := one_le_sizeOf like
    rw [eq_missing_of_mem_emptied hmem, Value.missing.sizeOf_spec, Value.nowhere.sizeOf_spec]
    omega
  | .map es =>
    rw [layers, List.flatten_singleton] at hmem
    exact sizeOf_lt_map hmem es
  | .overlay parent bindings =>
    rw [layers, List.flatten_singleton] at hmem
    exact sizeOf_lt_overlay hmem
  | .absent .map =>
    rw [layers, List.flatten_singleton] at hmem
    rw [eq_missing_of_mem_mapFields hmem]
    decide
  | .absent .overlay =>
    have hnothing : ∃ these : List (List (Reach × Text × Value)),
        layers (.absent .overlay) = these.map fun layer => layer.map emptied := ⟨[overlayFields .missing none], rfl⟩
    obtain ⟨these, hthese⟩ := hnothing
    rw [hthese] at hmem
    rw [eq_missing_of_mem_emptied hmem]
    decide
  | .null | .missing | .bool _ | .text _ | .name _ _ | .titled _ _ _ | .label _ _ | .time _ | .int _ | .whole _ _
  | .real _ _ | .complex _ _ | .list _ _ | .dict _ _ | .table _ _ | .absent .function | .func => cases hmem

theorem visible_cases (reach : Reach) (v : Value) : visible reach v = .missing ∨ visible reach v = v := by
  cases reach with
  | «open» => exact .inr rfl
  | embedded => exact .inr rfl
  | hidden => exact .inl rfl
  | enclosed => exact .inl rfl

theorem exists_of_fieldOf (fields : List (Reach × Text × Value)) (name : Text) :
    fieldOf fields name = .missing ∨
      ∃ reach n v, (reach, n, v) ∈ fields ∧ sizeOf (fieldOf fields name) ≤ sizeOf v := by
  rw [fieldOf]
  split
  · rename_i reach n v hfound
    obtain ⟨layer, hlayer, hfilter⟩ := List.mem_map.mp (List.mem_of_find?_eq_some hfound)
    have hfield : (reach, n, v) ∈ layer := by
      have hmem : (reach, n, v) ∈ layer.filter fun field => field.2.1 = name :=
        hfilter ▸ List.mem_singleton_self _
      exact (List.mem_filter.mp hmem).1
    rcases visible_cases reach v with hmissing | hvisible
    · exact .inl hmissing
    rw [hvisible]
    rcases List.mem_cons.mp hlayer with rfl | hlayer
    · exact .inr ⟨reach, n, v, hfield, Nat.le_refl _⟩
    · obtain ⟨reach', n', held, hheld, hinner⟩ :=
        exists_of_mem_embeddedLayers (List.mem_flatten.mpr ⟨layer, hlayer, hfield⟩)
      exact .inr ⟨reach', n', held, hheld, Nat.le_of_lt (sizeOf_lt_of_mem_layers held hinner)⟩
  · exact .inl rfl

/-- Nothing, or something smaller. -/
def Shrinks (found v : Value) : Prop := found = .missing ∨ sizeOf found < sizeOf v

theorem member_shrinks {v : Value} (hv : ∀ type fields, v ≠ .record type fields) (segment : Text) :
    Shrinks (v.member segment) v := by
  have hentries : ∀ es : List (Text × Value), sizeOf es < sizeOf v →
      Shrinks ((Entries.get? segment es).getD .missing) v := by
    intro es hes
    cases hget : Entries.get? segment es with
    | none => exact .inl rfl
    | some found => exact .inr (Nat.lt_trans (sizeOf_lt_of_get? hget) hes)
  cases v with
  | map es => exact hentries es (by simp +arith)
  | dict kind es => exact hentries es (by simp +arith)
  | list kind items =>
    rw [member, itemAt]
    split
    · rename_i n _
      cases hitem : items[n]? with
      | none => exact .inl rfl
      | some found =>
        have hfound := List.sizeOf_lt_of_mem (List.mem_of_getElem? hitem)
        right
        rw [Option.getD_some, Value.list.sizeOf_spec]
        omega
    · exact .inl rfl
  | record type fields => exact absurd rfl (hv type fields)
  | _ => exact .inl rfl

theorem member_behind_shrinks (v : Value) (segment : Text) : Shrinks (v.behind.member segment) v := by
  by_cases hrecord : ∃ type fields, v.behind = .record type fields
  · obtain ⟨type, fields, hfields⟩ := hrecord
    rw [hfields]
    refine (exists_of_fieldOf fields segment).imp_right ?_
    rintro ⟨reach, n, held, hmem, hsize⟩
    exact Nat.lt_of_le_of_lt hsize (sizeOf_lt_of_behind hfields hmem)
  · have hnone : ∀ type fields, v.behind ≠ .record type fields :=
      fun type fields hfields => hrecord ⟨type, fields, hfields⟩
    have hle := (leadsTo_behind rfl hnone).sizeOf_le
    exact (member_shrinks hnone segment).imp_right fun hlt => Nat.lt_of_lt_of_le hlt hle

/-- A segment leads nowhere or to something smaller. -/
theorem access_shrinks (segment : Text) (v : Value) : Shrinks (access segment v) v := by
  match v with
  | .overlay parent bindings =>
    rw [access]
    split
    · rename_i found hfound
      obtain ⟨es, rfl, hget⟩ := Option.bind_eq_some_iff.mp hfound
      have hlt := sizeOf_lt_of_get? hget
      right
      rw [Value.overlay.sizeOf_spec, Option.some.sizeOf_spec]
      omega
    · refine (access_shrinks segment parent).imp_right fun hlt => ?_
      rw [Value.overlay.sizeOf_spec]
      omega
  | .map es => exact member_shrinks (by rintro type fields ⟨⟩) segment
  | .null | .missing | .bool _ | .text _ | .name _ _ | .titled _ _ _ | .label _ _ | .time _ | .int _ | .whole _ _
  | .real _ _ | .complex _ _ | .list _ _ | .dict _ _ | .table _ _ | .ref _ | .nowhere _ | .absent _ | .record _ _
  | .func =>
    rw [access_eq_member rfl, ← behind_eq_followed rfl]
    exact member_behind_shrinks _ segment

/-! ### Where references do matter -/

/-- An overlay does not have the two values it is made of under the names they have in a record. -/
theorem not_access_ref_overlay (parent : Value) (bindings : Option (Entries Value)) :
    ¬ ∀ segment, access segment (.ref (.overlay parent bindings)) = access segment (.overlay parent bindings) := by
  intro hsame
  have hparent : ((bindings.bind (Entries.get? "Parent")).getD (access "Parent" parent)) = parent :=
    (Program.resolve_overlay "Parent" parent bindings).symm.trans (hsame "Parent").symm
  have hbindings : ((bindings.bind (Entries.get? "Bindings")).getD (access "Bindings" parent)) =
      ofBindings bindings :=
    (Program.resolve_overlay "Bindings" parent bindings).symm.trans (hsame "Bindings").symm
  have hbound : ∀ {name : Text} {found : Value}, bindings.bind (Entries.get? name) = some found →
      sizeOf found < sizeOf (ofBindings bindings) := by
    intro name found hfound
    obtain ⟨es, rfl, hget⟩ := Option.bind_eq_some_iff.mp hfound
    have hlt := sizeOf_lt_of_get? hget
    rw [ofBindings, Value.map.sizeOf_spec]
    omega
  -- The bindings are not bound in themselves, so they would have to stand in what they lie over.
  have hless : sizeOf (ofBindings bindings) < sizeOf parent := by
    cases hown : bindings.bind (Entries.get? "Bindings") with
    | some found =>
      have hlt := hbound hown
      rw [hown, Option.getD_some] at hbindings
      rw [hbindings] at hlt
      exact absurd hlt (Nat.lt_irrefl _)
    | none =>
      rw [hown, Option.getD_none] at hbindings
      rcases access_shrinks "Bindings" parent with hmissing | hlt
      · rw [hmissing] at hbindings
        cases bindings <;> cases hbindings
      · rwa [hbindings] at hlt
  cases hown : bindings.bind (Entries.get? "Parent") with
  | some found =>
    have hlt := hbound hown
    rw [hown, Option.getD_some] at hparent
    rw [hparent] at hlt
    omega
  | none =>
    rw [hown, Option.getD_none] at hparent
    rcases access_shrinks "Parent" parent with hmissing | hlt
    · rw [← hparent, hmissing, Value.missing.sizeOf_spec] at hless
      have hpos := one_le_sizeOf (ofBindings bindings)
      omega
    · rw [hparent] at hlt
      omega

/-- A reference answers as its target does, whatever is asked, exactly if the target is neither an ordered map
nor an overlay. -/
theorem reference_transparent_iff (v : Value) :
    ((∀ path : Path, path ≠ [] → resolve path (.ref v) = resolve path v) ∧
        (Value.ref v).entries = v.entries ∧ (Value.ref v).isMapping = v.isMapping) ↔
      (∀ es, v ≠ .map es) ∧ ∀ parent bindings, v ≠ .overlay parent bindings := by
  constructor
  · rintro ⟨hresolve, _, hmapping⟩
    constructor
    · rintro es rfl
      cases hmapping
    · rintro parent bindings rfl
      exact not_access_ref_overlay parent bindings fun segment => hresolve [segment] (by simp)
  · rintro ⟨hmap, hoverlay⟩
    have hv : v.isVeiled = false := by
      cases v with
      | map es => exact absurd rfl (hmap es)
      | overlay parent bindings => exact absurd rfl (hoverlay parent bindings)
      | _ => rfl
    exact ⟨fun path hpath => resolve_ref hv hpath, entries_ref hv, isMapping_ref hv⟩

/-- What an ordered map holds cannot be reached through a reference to it. -/
theorem referenced_map_unreachable :
    resolve ["z"] (.map [("z", .int 1)]) = .int 1 ∧ resolve ["z"] (.ref (.map [("z", .int 1)])) = .missing ∧
      (Value.map [("z", .int 1)]).entries = [(.text "z", .int 1)] ∧
      (Value.ref (.map [("z", .int 1)])).entries = [] ∧ (Value.map [("z", .int 1)]).isMapping = true ∧
      (Value.ref (.map [("z", .int 1)])).isMapping = false :=
  ⟨rfl, rfl, rfl, rfl, rfl, rfl⟩

end Stencil.Value
