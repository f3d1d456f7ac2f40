import Mathlib.Data.List.Basic
import Mathlib.Tactic.Common

/-! # Pages of a list

A page is what is left of a list from an offset on, cut to a size. A page grows with the list
(`Paging.page_concat`), and a reader who asks for one page after another, each where the one before
ended, and stops at an empty page, sees all the items once and in their order
(`Paging.visits_of_tiles`) and nothing else (`Paging.Visits.unique`).
-/

universe u

namespace Paging

variable {Item : Type u}

def page (offset size : Nat) (items : List Item) : List Item := (items.drop offset).take size

/-- One more item is on the page if there is room and the offset is reached. -/
theorem page_concat (offset size : Nat) (items : List Item) (item : Item) :
    page offset size (items ++ [item]) =
      if items.length < offset ∨ size ≤ (page offset size items).length then page offset size items
      else page offset size items ++ [item] := by
  unfold page
  rw [List.length_take, List.length_drop]
  split_ifs with closed
  · rcases closed with before | full
    · rw [List.drop_eq_nil_of_le (by rw [List.length_append, List.length_singleton]; omega),
        List.drop_eq_nil_of_le (by omega)]
    · by_cases reached : offset ≤ items.length
      · rw [List.drop_append_of_le_length reached, List.take_append_of_le_length]
        rw [List.length_drop]
        omega
      · have none : size = 0 := by omega
        rw [none, List.take_zero, List.take_zero]
  · rw [not_or, Nat.not_lt, Nat.not_le] at closed
    rw [List.drop_append_of_le_length closed.1, List.take_of_length_le, List.take_of_length_le]
    · rw [List.length_drop]
      omega
    · rw [List.length_append, List.length_drop, List.length_singleton]
      omega

/-- The items that a reader sees who asks for pages from an offset on. -/
inductive Visits (read : Nat → List Item) : Nat → List Item → Prop where
  | last {offset : Nat} : read offset = [] → Visits read offset []
  | next {offset : Nat} {rest : List Item} : read offset ≠ [] →
      Visits read (offset + (read offset).length) rest → Visits read offset (read offset ++ rest)

theorem Visits.unique {read : Nat → List Item} {offset : Nat} {first second : List Item}
    (visits : Visits read offset first) (others : Visits read offset second) : first = second := by
  induction visits generalizing second with
  | last empty =>
      cases others with
      | last => rfl
      | next some => exact absurd empty some
  | next some _ ih =>
      cases others with
      | last empty => exact absurd empty some
      | next _ rest => rw [ih rest]

variable {read : Nat → List Item} {items : List Item} {size : Nat}

/-- The pages show every item once. -/
theorem visits_of_tiles (positive : 0 < size)
    (tiles : ∀ offset ≤ items.length, read offset = page offset size items) {offset : Nat}
    (within : offset ≤ items.length) : Visits read offset (items.drop offset) := by
  generalize left : items.length - offset = count
  induction count using Nat.strongRecOn generalizing offset with
  | ind count ih =>
      have own := tiles offset within
      have length : (read offset).length = min size (items.length - offset) := by
        rw [own, page, List.length_take, List.length_drop]
      by_cases ended : offset = items.length
      · rw [List.drop_eq_nil_of_le (Nat.le_of_eq ended.symm)]
        refine .last (List.length_eq_zero_iff.mp ?_)
        omega
      · have whole : items.drop offset =
            read offset ++ items.drop (offset + (read offset).length) := by
          rw [← List.drop_drop, length, own, page]
          by_cases small : size ≤ items.length - offset
          · rw [Nat.min_eq_left small, List.take_append_drop]
          · have rest : (items.drop offset).drop (items.length - offset) = [] :=
              List.drop_eq_nil_of_le (Nat.le_of_eq List.length_drop)
            rw [Nat.min_eq_right (by omega), rest, List.append_nil, List.take_of_length_le]
            rw [List.length_drop]
            omega
        rw [whole]
        refine .next ?_ (ih (items.length - (offset + (read offset).length)) ?_ ?_ rfl)
        · refine List.ne_nil_of_length_pos ?_
          omega
        · omega
        · omega

end Paging
