import Mathlib.Data.List.Nodup
import Mathlib.Data.List.Infix

/-! # The first item of each key

A list without the items whose key an earlier item has. One more item is kept when its key is new
(`List.firsts_concat`), so what is kept of a list begins what is kept of every longer one
(`List.firsts_prefix`).
-/

namespace List

variable {α κ : Type*} [DecidableEq κ] (key : α → κ)

/-- The first item of each key. -/
def firsts : List α → List α
  | [] => []
  | item :: items => item :: (firsts items).filter fun other => key other ≠ key item

theorem firsts_concat (items : List α) (item : α) :
    firsts key (items ++ [item]) =
      firsts key items ++ if key item ∈ items.map key then [] else [item] := by
  induction items with
  | nil => rfl
  | cons first items ih =>
      rw [cons_append, firsts, firsts, ih, filter_append, cons_append, map_cons]
      refine congrArg (first :: ·) (congrArg _ ?_)
      by_cases same : key item = key first
      · rw [if_pos (mem_cons.mpr (.inl same))]
        split_ifs
        · rfl
        · rw [filter_singleton, decide_eq_false (not_not.mpr same)]
          rfl
      · by_cases seen : key item ∈ items.map key
        · rw [if_pos seen, if_pos (mem_cons_of_mem _ seen)]
          rfl
        · rw [if_neg seen, if_neg fun listed => (mem_cons.mp listed).elim same seen,
            filter_singleton, decide_eq_true same]
          rfl

theorem firsts_prefix (front back : List α) : firsts key front <+: firsts key (front ++ back) := by
  induction back using reverseRecOn with
  | nil => rw [append_nil]
  | append_singleton back item ih =>
      rw [← append_assoc, firsts_concat]
      exact ih.trans (prefix_append _ _)

theorem find?_firsts (items : List α) (sought : κ) :
    (firsts key items).find? (fun item => key item = sought) =
      items.find? fun item => key item = sought := by
  induction items with
  | nil => rfl
  | cons first items ih =>
      rw [firsts, find?_cons, find?_cons]
      by_cases same : key first = sought
      · rw [decide_eq_true same]
      · have kept : (fun item => decide (key item ≠ key first) && decide (key item = sought)) =
            fun item => decide (key item = sought) := by
          funext item
          by_cases own : key item = sought
          · simp [own, Ne.symm same]
          · simp [own]
        rw [decide_eq_false same, find?_filter, ← ih]
        simpa using congrArg (fun test => find? test (firsts key items)) kept

/-- What is kept is the first item of its key. -/
theorem find?_of_mem_firsts {items : List α} {item : α} (listed : item ∈ firsts key items) :
    items.find? (fun other => key other = key item) = some item := by
  induction items with
  | nil => cases listed
  | cons first items ih =>
      rw [find?_cons]
      rcases mem_cons.mp listed with rfl | later
      · rw [decide_eq_true rfl]
      · obtain ⟨kept, other⟩ := mem_filter.mp later
        rw [decide_eq_false (Ne.symm (of_decide_eq_true other)), ih kept]

theorem mem_map_firsts {items : List α} {sought : κ} :
    sought ∈ (firsts key items).map key ↔ sought ∈ items.map key := by
  have found : ∀ items : List α, sought ∈ items.map key ↔
      (items.find? fun item => key item = sought).isSome = true := by
    intro items
    simp [find?_isSome]
  rw [found, found, find?_firsts]

theorem nodup_map_firsts (items : List α) : ((firsts key items).map key).Nodup := by
  induction items with
  | nil => exact nodup_nil
  | cons first items ih =>
      rw [firsts, map_cons, nodup_cons]
      refine ⟨?_, ih.sublist (filter_sublist.map key)⟩
      rw [mem_map]
      rintro ⟨other, listed, same⟩
      exact (of_decide_eq_true (mem_filter.mp listed).2) same

end List
