import Stencil.Proofs.BlankExpressions
import Stencil.Value.Access

/-!
# The language of paths

Which texts are paths, which path each of them is, and what is wrong with the others. A text is cut at every dot
after the white space around it is taken away, so a path that was read is written as the text it was read from,
and reading it once more gives the same path: trimming leaves nothing more to trim, also where bytes are stray.

`parse_exact` says all of it, and that paths are followed one after the other as one path would be.
-/

namespace Stencil

namespace Path

/-! ### The language -/

/-- Whether a character may stand in a segment: any outside ASCII may, which goes for stray bytes as well. -/
def Allows (c : Char) : Prop :=
  c.toNat < 128 → ('a' ≤ c ∧ c ≤ 'z') ∨ ('A' ≤ c ∧ c ≤ 'Z') ∨ ('0' ≤ c ∧ c ≤ '9') ∨ c = '_' ∨ c = '$' ∨ c = '-'

/-- Whether a text may stand between dots. -/
def IsSegment (s : Text) : Prop := s ≠ [] ∧ ∀ c ∈ s.chars, Allows c

/-- The segments of a text: what stands before, between and after its dots. -/
structure Divides (segments : List Text) (t : Text) : Prop where
  nonempty : segments ≠ []
  joined : t = Text.join "." segments
  undotted : ∀ s ∈ segments, 0x2E ∉ s

/-- The texts that stand for the root path. -/
def IsRootText (t : Text) : Prop := t = [] ∨ t = "."

/-- A text with nothing wrong in it. -/
def IsPathText (t : Text) : Prop := IsRootText t ∨ ∃ segments, Divides segments t ∧ ∀ s ∈ segments, IsSegment s

/-- What is wrong with a text that is no segment, at its position in `t`: it is empty, or else it has a first
character that may not stand in a segment. -/
inductive Spoils (t : Text) (position : Nat) : Text → PathError → Prop
  | empty : Spoils t position [] (.emptySegment t position)
  | char {segment front c back} : segment.chars = front ++ c :: back → (∀ x ∈ front, Allows x) → ¬ Allows c →
    Spoils t position segment (.unexpectedChar t c)

/-- What is wrong with a text is what is wrong with the first of its segments that is none. -/
def HasFault (t : Text) (e : PathError) : Prop :=
  ∃ before segment after, Divides (before ++ segment :: after) t ∧ (∀ s ∈ before, IsSegment s) ∧
    Spoils t before.length segment e

theorem divides_iff {segments : List Text} {t : Text} : Divides segments t ↔ segments = t.splitOn 0x2E := by
  constructor
  · rintro ⟨hne, rfl, hundotted⟩
    exact (Text.splitOn_join hne hundotted).symm
  · rintro rfl
    obtain ⟨part, parts, hsplit⟩ := Text.exists_splitOn 0x2E t
    exact ⟨by simp [hsplit], (Text.join_splitOn 0x2E t).symm, fun s hs => Text.not_mem_of_mem_splitOn hs⟩

theorem isDisallowed_iff {c : Char} : isDisallowed c = true ↔ ¬ Allows c := by
  simp only [isDisallowed, Allows, CharClass.isIdentifier, CharClass.isLetter, CharClass.isDigit]
  grind

theorem not_isDisallowed_iff {c : Char} : (!isDisallowed c) = true ↔ Allows c := by
  rw [Bool.not_eq_true', ← Bool.not_eq_true, isDisallowed_iff, Classical.not_not]

theorem find?_isDisallowed_eq_none_iff {cs : List Char} : cs.find? isDisallowed = none ↔ ∀ c ∈ cs, Allows c := by
  simp [List.find?_eq_none, isDisallowed_iff]

theorem find?_isDisallowed_eq_some_iff {cs : List Char} {c : Char} :
    cs.find? isDisallowed = some c ↔
      ∃ front back, cs = front ++ c :: back ∧ (∀ x ∈ front, Allows x) ∧ ¬ Allows c := by
  rw [List.find?_eq_some_iff_append, isDisallowed_iff]
  constructor
  · rintro ⟨hc, front, back, rfl, hfront⟩
    exact ⟨front, back, rfl, fun x hx => not_isDisallowed_iff.mp (hfront x hx), hc⟩
  · rintro ⟨front, back, rfl, hfront, hc⟩
    exact ⟨hc, front, back, rfl, fun x hx => not_isDisallowed_iff.mpr (hfront x hx)⟩

/-! ### Reading -/

/-- The first fault of a list of segments is that of its first text that is no segment. -/
theorem firstFault?_append {t : Text} {position : Nat} {before after : List Text}
    (hbefore : ∀ s ∈ before, IsSegment s) :
    firstFault? t position (before ++ after) = firstFault? t (position + before.length) after := by
  induction before generalizing position with
  | nil => rfl
  | cons segment before ih =>
    obtain ⟨⟨hne, hchars⟩, hbefore⟩ := List.forall_mem_cons.mp hbefore
    rw [List.cons_append, firstFault?, if_neg (by simpa using hne), find?_isDisallowed_eq_none_iff.mpr hchars,
      ih hbefore, List.length_cons, Nat.add_assoc, Nat.add_comm 1]

theorem firstFault?_eq_none_iff {t : Text} {position : Nat} {segments : List Text} :
    firstFault? t position segments = none ↔ ∀ s ∈ segments, IsSegment s := by
  constructor
  · intro h
    induction segments generalizing position with
    | nil => exact fun s hs => absurd hs List.not_mem_nil
    | cons segment rest ih =>
      rw [firstFault?] at h
      split at h
      · cases h
      · rename_i hne
        split at h
        · cases h
        · rename_i hfind
          refine List.forall_mem_cons.mpr ⟨⟨by simpa using hne, ?_⟩, ih h⟩
          exact find?_isDisallowed_eq_none_iff.mp hfind
  · intro h
    have hall := @firstFault?_append t position segments [] h
    rwa [List.append_nil] at hall

theorem Spoils.firstFault? {t : Text} {position : Nat} {segment : Text} {e : PathError}
    (h : Spoils t position segment e) (after : List Text) : firstFault? t position (segment :: after) = some e := by
  cases h with
  | empty => rfl
  | @char _ front c back hchars hfront hc =>
    have hne : segment ≠ [] := by
      rintro rfl
      exact List.append_ne_nil_of_right_ne_nil front (List.cons_ne_nil c back) hchars.symm
    rw [Path.firstFault?, if_neg (by simpa using hne),
      find?_isDisallowed_eq_some_iff.mpr ⟨front, back, hchars, hfront, hc⟩]

theorem exists_of_firstFault? {t : Text} {position : Nat} {segments : List Text} {e : PathError}
    (h : firstFault? t position segments = some e) :
    ∃ before segment after, segments = before ++ segment :: after ∧ (∀ s ∈ before, IsSegment s) ∧
      Spoils t (position + before.length) segment e := by
  induction segments generalizing position with
  | nil => cases h
  | cons segment rest ih =>
    rw [firstFault?] at h
    split at h
    · rename_i hempty
      obtain rfl := List.isEmpty_iff.mp hempty
      obtain rfl := Option.some.inj h
      exact ⟨[], [], rest, rfl, by simp, .empty⟩
    · rename_i hne
      split at h
      · rename_i c hfind
        obtain rfl := Option.some.inj h
        obtain ⟨front, back, hchars, hfront, hc⟩ := find?_isDisallowed_eq_some_iff.mp hfind
        exact ⟨[], segment, rest, rfl, by simp, .char hchars hfront hc⟩
      · rename_i hfind
        obtain ⟨before, other, after, rfl, hbefore, hspoils⟩ := ih h
        have hsegment : IsSegment segment := ⟨by simpa using hne, find?_isDisallowed_eq_none_iff.mp hfind⟩
        refine ⟨segment :: before, other, after, rfl, List.forall_mem_cons.mpr ⟨hsegment, hbefore⟩, ?_⟩
        rwa [List.length_cons, Nat.add_comm before.length, ← Nat.add_assoc]

theorem hasFault_iff {t : Text} {e : PathError} :
    HasFault t e ↔ firstFault? t 0 (t.splitOn 0x2E) = some e := by
  constructor
  · rintro ⟨before, segment, after, hdivides, hbefore, hspoils⟩
    rw [← divides_iff.mp hdivides, firstFault?_append hbefore, Nat.zero_add]
    exact hspoils.firstFault? after
  · intro h
    obtain ⟨before, segment, after, hsplit, hbefore, hspoils⟩ := exists_of_firstFault? h
    rw [Nat.zero_add] at hspoils
    exact ⟨before, segment, after, divides_iff.mpr hsplit.symm, hbefore, hspoils⟩

theorem isRootText_iff {t : Text} : IsRootText t ↔ (t.isEmpty || t == [0x2E]) = true := by
  rw [Bool.or_eq_true, List.isEmpty_iff, beq_iff_eq]
  rfl

theorem parse_eq_ok_iff {source : Text} {p : Path} :
    parse source = .ok p ↔ IsRootText source.trim ∧ p = [] ∨
      ¬ IsRootText source.trim ∧ Divides p source.trim ∧ ∀ s ∈ p, IsSegment s := by
  rw [parse]
  by_cases hroot : IsRootText source.trim
  · simp [isRootText_iff.mp hroot, hroot, eq_comm]
  · rw [if_neg (fun h => hroot (isRootText_iff.mpr h))]
    simp only [hroot, false_and, not_false_eq_true, true_and, false_or]
    constructor
    · intro h
      split at h
      · cases h
      · rename_i hnone
        obtain rfl := Except.ok.inj h
        exact ⟨divides_iff.mpr rfl, firstFault?_eq_none_iff.mp hnone⟩
    · rintro ⟨hdivides, hsegments⟩
      rw [← divides_iff.mp hdivides, firstFault?_eq_none_iff.mpr hsegments]

theorem parse_eq_error_iff {source : Text} {e : PathError} :
    parse source = .error e ↔ ¬ IsRootText source.trim ∧ HasFault source.trim e := by
  rw [parse]
  by_cases hroot : IsRootText source.trim
  · simp [isRootText_iff.mp hroot, hroot]
  · rw [if_neg (fun h => hroot (isRootText_iff.mpr h)), hasFault_iff]
    cases firstFault? source.trim 0 (source.trim.splitOn 0x2E) <;> simp [hroot]

theorem Divides.toText_eq {segments : List Text} {t : Text} (h : Divides segments t) : toText segments = t := by
  rw [toText, if_neg (by simpa using h.nonempty), h.joined]
  rfl

/-- A path that was read is written as the text it was read from; the root path is written as a dot. -/
theorem toText_of_parse {source : Text} {p : Path} (h : parse source = .ok p) :
    toText p = if source.trim = [] then Text.ofString "." else source.trim := by
  rcases parse_eq_ok_iff.mp h with ⟨hroot, rfl⟩ | ⟨hroot, hdivides, -⟩
  · rcases hroot with hempty | hdot
    · rw [if_pos hempty]
      rfl
    · rw [hdot]
      rfl
  · rw [if_neg (fun hempty => hroot (.inl hempty)), hdivides.toText_eq]

theorem parse_toText_of_parse {source : Text} {p : Path} (h : parse source = .ok p) : parse (toText p) = .ok p := by
  rcases parse_eq_ok_iff.mp h with ⟨-, rfl⟩ | ⟨-, hdivides, -⟩
  · rfl
  · rw [hdivides.toText_eq, ← h, parse, parse, Text.trim_trim]

/-- Two texts that are the same path are the same apart from the white space around them, unless it is the root
path. -/
theorem trim_eq_of_parse {source other : Text} {p : Path} (hsource : parse source = .ok p)
    (hother : parse other = .ok p) (hroot : ¬ IsRootText source.trim) : other.trim = source.trim := by
  obtain ⟨hdivides, -⟩ := ((parse_eq_ok_iff.mp hsource).resolve_left fun h => hroot h.1).2
  rcases parse_eq_ok_iff.mp hother with ⟨-, rfl⟩ | ⟨-, hother, -⟩
  · exact absurd rfl hdivides.nonempty
  · rw [← hother.toText_eq, hdivides.toText_eq]

theorem exists_parse_iff {source : Text} : (∃ p, parse source = .ok p) ↔ IsPathText source.trim := by
  constructor
  · rintro ⟨p, hp⟩
    rcases parse_eq_ok_iff.mp hp with ⟨hroot, -⟩ | ⟨-, hdivides, hsegments⟩
    · exact .inl hroot
    · exact .inr ⟨p, hdivides, hsegments⟩
  · intro h
    by_cases hroot : IsRootText source.trim
    · exact ⟨[], parse_eq_ok_iff.mpr (.inl ⟨hroot, rfl⟩)⟩
    · obtain ⟨segments, hdivides, hsegments⟩ := h.resolve_left hroot
      exact ⟨segments, parse_eq_ok_iff.mpr (.inr ⟨hroot, hdivides, hsegments⟩)⟩

/-- The texts that are paths, how each of them is written and what is wrong with the others; and following one path
after another is following both as one. -/
theorem parse_exact (source : Text) :
    ((∃ p, parse source = .ok p) ↔ IsPathText source.trim) ∧
    (∀ p, parse source = .ok p →
      toText p = (if source.trim = [] then Text.ofString "." else source.trim) ∧ parse (toText p) = .ok p ∧
      ∀ other, parse other = .ok p → ¬ IsRootText source.trim → other.trim = source.trim) ∧
    (∀ e, parse source = .error e ↔ ¬ IsRootText source.trim ∧ HasFault source.trim e) ∧
    ∀ (p q : Path) (context : Value),
      Value.resolve (p ++ q) context = Value.resolve q (Value.resolve p context) := by
  refine ⟨exists_parse_iff, fun p hp => ⟨toText_of_parse hp, parse_toText_of_parse hp, ?_⟩,
    fun e => parse_eq_error_iff, fun p q context => List.foldl_append⟩
  exact fun other hother hroot => trim_eq_of_parse hp hother hroot

/-- A path between a no-break space and a line feed, with a letter outside ASCII and a stray byte in it. -/
def spacedPath : Text := Text.ofString "\u00a0user.na\u00efve." ++ [0xFF] ++ Text.ofString "\n"

theorem spacedPath_exact :
    parse spacedPath = .ok ["user", "na\u00efve", [0xFF]] ∧
      toText ["user", "na\u00efve", [0xFF]] = Text.ofString "user.na\u00efve." ++ [0xFF] ∧
      parse (toText ["user", "na\u00efve", [0xFF]]) = .ok ["user", "na\u00efve", [0xFF]] := by
  have hparse : parse spacedPath = .ok ["user", "na\u00efve", [0xFF]] := rfl
  obtain ⟨htext, hagain, -⟩ := (parse_exact spacedPath).2.1 _ hparse
  exact ⟨hparse, htext.trans rfl, hagain⟩

end Path

end Stencil
