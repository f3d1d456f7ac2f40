import Mathlib.Data.List.Infix

/-! # Occurrences of one list in another

The offsets at which a list occurs, overlapping ones too, and the search that finds the first one
from an offset on. Searching again one behind each find gives every occurrence
(`List.searchAll_eq`).
-/

namespace List

variable {α : Type*} [DecidableEq α]

/-- `needle` occurs in `haystack` at an offset. -/
def OccursAt (haystack needle : List α) (offset : Nat) : Prop := needle <+: haystack.drop offset

instance (haystack needle : List α) (offset : Nat) : Decidable (OccursAt haystack needle offset) :=
  inferInstanceAs (Decidable (_ <+: _))

/-- Every offset at which a list occurs. -/
def occurrences (haystack needle : List α) : List Nat :=
  (range (haystack.length + 1)).filter fun offset => OccursAt haystack needle offset

/-- The first occurrence at an offset or behind it. -/
def searchFrom (haystack needle : List α) (start : Nat) : Option Nat :=
  (range' start (haystack.length + 1 - start)).find? fun offset => OccursAt haystack needle offset

/-- Search on from one behind each find. -/
def searchAll (haystack needle : List α) : Nat → Nat → List Nat
  | 0, _ => []
  | fuel + 1, start =>
      if start + needle.length ≤ haystack.length then
        match searchFrom haystack needle start with
        | none => []
        | some found => found :: searchAll haystack needle fuel (found + 1)
      else []

omit [DecidableEq α] in
theorem OccursAt.length_le {haystack needle : List α} {offset : Nat} (some : needle ≠ [])
    (occurs : OccursAt haystack needle offset) : offset + needle.length ≤ haystack.length := by
  have shorter := IsPrefix.length_le occurs
  have positive := length_pos_iff.mpr some
  rw [length_drop] at shorter
  omega

omit [DecidableEq α] in
/-- What a filter keeps of a range is the first hit and what it keeps behind it. -/
theorem filter_range'_of_find? {p : Nat → Bool} {start count found : Nat}
    (first : (range' start count).find? p = some found) :
    start ≤ found ∧ found < start + count ∧
      (range' start count).filter p =
        found :: (range' (found + 1) (start + count - (found + 1))).filter p := by
  induction count generalizing start with
  | zero => cases first
  | succ count ih =>
      rw [range'_succ, find?_cons] at first
      by_cases hit : p start
      · rw [hit] at first
        cases first
        rw [range'_succ, filter_cons_of_pos hit,
          show found + (count + 1) - (found + 1) = count by omega]
        exact ⟨Nat.le_refl _, by omega, rfl⟩
      · rw [Bool.not_eq_true] at hit
        rw [hit] at first
        obtain ⟨low, high, rest⟩ := ih first
        rw [range'_succ, filter_cons_of_neg (by rw [hit]; decide), rest,
          show start + (count + 1) - (found + 1) = start + 1 + count - (found + 1) by omega]
        exact ⟨by omega, by omega, rfl⟩

theorem searchAll_eq_filter {haystack needle : List α} (some : needle ≠ []) {fuel start : Nat}
    (fueled : haystack.length + 1 ≤ start + fuel) :
    searchAll haystack needle fuel start =
      (range' start (haystack.length + 1 - start)).filter
        fun offset => OccursAt haystack needle offset := by
  induction fuel generalizing start with
  | zero =>
      rw [show haystack.length + 1 - start = 0 by omega]
      rfl
  | succ fuel ih =>
      rw [searchAll]
      by_cases room : start + needle.length ≤ haystack.length
      · rw [if_pos room]
        cases found : searchFrom haystack needle start with
        | none =>
            rw [searchFrom, find?_eq_none] at found
            exact (filter_eq_nil_iff.mpr found).symm
        | some offset =>
            obtain ⟨low, high, rest⟩ := filter_range'_of_find? found
            rw [rest]
            refine congrArg (offset :: ·) ?_
            rw [ih (by omega),
              show start + (haystack.length + 1 - start) - (offset + 1) =
                haystack.length + 1 - (offset + 1) by omega]
      · rw [if_neg room]
        refine (filter_eq_nil_iff.mpr fun offset listed hit => ?_).symm
        have fits := (of_decide_eq_true hit).length_le some
        have behind := (mem_range'_1.mp listed).1
        omega

/-- **Searching on.** Searching again behind each find gives every occurrence. -/
theorem searchAll_eq {haystack needle : List α} (some : needle ≠ []) :
    searchAll haystack needle (haystack.length + 1) 0 = occurrences haystack needle := by
  rw [searchAll_eq_filter some (by omega), occurrences, range_eq_range', Nat.sub_zero]

theorem mem_occurrences {haystack needle : List α} {offset : Nat} (some : needle ≠ []) :
    offset ∈ occurrences haystack needle ↔ OccursAt haystack needle offset := by
  rw [occurrences, mem_filter, decide_eq_true_eq, mem_range, and_iff_right_iff_imp]
  intro occurs
  have fits := occurs.length_le some
  omega

/-- The first occurrence is behind a list without the first item. -/
theorem searchFrom_append {front : List α} {mark : α} (absent : mark ∉ front)
    (needle rest : List α) :
    searchFrom (front ++ (mark :: needle) ++ rest) (mark :: needle) 0 = some front.length := by
  rw [searchFrom, find?_range'_eq_some, mem_range'_1, append_assoc]
  refine ⟨decide_eq_true ?_, ⟨Nat.zero_le _, by rw [length_append]; omega⟩, ?_⟩
  · rw [OccursAt, drop_left]
    exact prefix_append _ _
  · intro earlier _ before
    rw [Bool.not_eq_true']
    refine decide_eq_false fun occurs => absent ?_
    rw [OccursAt, drop_append_of_le_length before.le, drop_eq_getElem_cons before, cons_append,
      cons_prefix_cons] at occurs
    rw [occurs.1]
    exact getElem_mem before

end List
