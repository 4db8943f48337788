import Stencil.Files.Pattern

/-!
# Patterns are read alike for every name

A pattern is read while it is matched, so what is read of it might depend on the name: a chunk is matched element
by element, in several places after a star, and the rest of the pattern is only read to its end once a match has
failed. It does not. Elements are taken from a chunk also when the name has failed already, and whichever way a
chunk is left, the rest is read next.

So a pattern that can be matched with one name can be matched with any, which `matchPattern_isOk` says.
-/

namespace Stencil.Files

namespace Pattern

theorem isOk_map {ε α β : Type} (f : α → β) (x : Except ε α) : (x.map f).isOk = x.isOk := by
  cases x <;> rfl

theorem isOk_eq_true_iff {ε α : Type} {x : Except ε α} : x.isOk = true ↔ ∃ a, x = .ok a := by
  cases x with
  | error e => exact ⟨by rintro ⟨⟩, by rintro ⟨_, ⟨⟩⟩⟩
  | ok a => exact ⟨fun _ => ⟨a, rfl⟩, fun _ => rfl⟩

theorem isOk_eq_false_iff {ε α : Type} {x : Except ε α} : x.isOk = false ↔ ∃ e, x = .error e := by
  cases x with
  | error e => exact ⟨fun _ => ⟨e, rfl⟩, fun _ => rfl⟩
  | ok a => exact ⟨by rintro ⟨⟩, by rintro ⟨_, ⟨⟩⟩⟩

/-- Whether a chunk can be read does not depend on what is left of the name. -/
theorem stripChunk_isOk (fuel : Nat) (chunk : Text) (name other : Option Text) :
    (stripChunk fuel chunk name).isOk = (stripChunk fuel chunk other).isOk := by
  induction fuel generalizing chunk name other with
  | zero => rw [stripChunk, stripChunk]; rfl
  | succ fuel ih =>
    cases chunk with
    | nil => rw [stripChunk, stripChunk]; rfl
    | cons b rest =>
      rw [stripChunk, stripChunk]
      cases takeElement b rest with
      | error e => rfl
      | ok taken => exact ih taken.2 _ _

theorem fit_isOk (chunk : Text) (last : Bool) (name : Text) :
    (fit chunk last name).isOk = (stripChunk chunk.length chunk none).isOk := by
  rw [fit, isOk_map, stripChunk_isOk]

theorem fitLater_isOk {chunk : Text} (hchunk : (stripChunk chunk.length chunk none).isOk = true) (last : Bool)
    (name : Text) : (fitLater chunk last name).isOk = true := by
  induction name with
  | nil => rfl
  | cons b rest ih =>
    rw [fitLater]
    split
    · rfl
    · obtain ⟨found, hfound⟩ := isOk_eq_true_iff.mp ((fit_isOk chunk last rest).trans hchunk)
      rw [hfound]
      cases found with
      | none => exact ih
      | some left => rfl

theorem chunkLength_pos {b : UInt8} (hb : b ≠ 0x2A) (rest : Text) : 0 < chunkLength false (b :: rest) := by
  rw [chunkLength.eq_def]
  split
  · rename_i heq
    cases heq
  · omega
  · rename_i heq
    obtain ⟨rfl, rfl⟩ := List.cons.inj heq
    rw [if_neg (by simpa using hb)]
    split
    · omega
    · split <;> omega

/-- Only at the end of a pattern a chunk is empty. -/
theorem rest_nextPart_of_chunk {pattern : Text} (hchunk : (nextPart pattern).chunk = []) :
    (nextPart pattern).rest = [] := by
  rw [nextPart] at hchunk ⊢
  cases hbody : pattern.dropWhile (· = 0x2A) with
  | nil => rfl
  | cons b rest =>
    have hb : b ≠ 0x2A := by
      have hhead := List.head?_dropWhile_not (fun b : UInt8 => decide (b = 0x2A)) pattern
      rw [hbody] at hhead
      simpa using hhead
    have hlength := chunkLength_pos hb rest
    rw [hbody, List.take_eq_nil_iff] at hchunk
    rcases hchunk with hzero | hnil
    · omega
    · cases hnil

theorem check_nil (fuel : Nat) : check fuel [] = .ok () := by
  cases fuel <;> rfl

/-- A pattern can be matched if it can be read to its end. -/
theorem matchParts_isOk (fuel : Nat) (pattern name : Text) :
    (matchParts fuel pattern name).isOk = (check fuel pattern).isOk := by
  induction fuel generalizing pattern name with
  | zero => rfl
  | succ fuel ih =>
    rw [matchParts, check]
    split
    · rfl
    · generalize hpart : nextPart pattern = part
      dsimp only
      by_cases hstars : (part.star && part.chunk.isEmpty) = true
      · have hchunk : part.chunk = [] := List.isEmpty_iff.mp (Bool.and_eq_true_iff.mp hstars).2
        have hrest : part.rest = [] := by
          subst hpart
          exact rest_nextPart_of_chunk hchunk
        rw [if_pos hstars, hchunk, hrest, check_nil]
        rfl
      · rw [if_neg hstars]
        have hfit := fit_isOk part.chunk part.rest.isEmpty name
        cases hchunk : stripChunk part.chunk.length part.chunk none with
        | error e =>
          rw [hchunk] at hfit
          obtain ⟨e, he⟩ := isOk_eq_false_iff.mp hfit
          rw [he]
          rfl
        | ok left =>
          rw [hchunk] at hfit
          obtain ⟨found, hfound⟩ := isOk_eq_true_iff.mp hfit
          rw [hfound]
          -- Wherever the chunk fits, the rest is matched next; where it fits nowhere, the rest is read.
          cases found with
          | some left => exact ih part.rest left
          | none =>
            cases part.star with
            | false => exact isOk_map _ _
            | true =>
              have hlater := @fitLater_isOk part.chunk (by rw [hchunk]; rfl) part.rest.isEmpty name
              obtain ⟨found, hfound⟩ := isOk_eq_true_iff.mp hlater
              rw [if_pos rfl, hfound]
              cases found with
              | some left => exact ih part.rest left
              | none => exact isOk_map _ _

end Pattern

/-- Whether a pattern is malformed does not depend on the name. -/
theorem matchPattern_isOk (pattern name other : Text) :
    (matchPattern pattern name).isOk = (matchPattern pattern other).isOk := by
  rw [matchPattern, matchPattern, Pattern.matchParts_isOk, Pattern.matchParts_isOk]

end Stencil.Files
