import Mathlib.Data.List.Count

/-! # Lists of numbered entries

Replacing an entry changes what counts by that entry alone.
-/

namespace List

variable {α : Type*} {entries : List α} {index : Nat} {old : α}

theorem countP_set_add {counts : α → Bool} (entry : α) (found : entries[index]? = some old) :
    (entries.set index entry).countP counts + (counts old).toNat =
      entries.countP counts + (counts entry).toNat := by
  obtain ⟨inside, rfl⟩ := getElem?_eq_some_iff.mp found
  rw [countP_set inside]
  cases counted : counts entries[index] with
  | false => cases counts entry <;> simp
  | true =>
      have present : 0 < entries.countP counts :=
        countP_pos_iff.mpr ⟨_, getElem_mem inside, counted⟩
      cases counts entry <;> simp <;> omega

theorem modify_eq_set_of_found (edit : α → α) (found : entries[index]? = some old) :
    entries.modify index edit = entries.set index (edit old) := by
  obtain ⟨inside, rfl⟩ := getElem?_eq_some_iff.mp found
  rw [modify_eq_set_getElem?, getElem?_eq_getElem inside]
  rfl

/-- An entry of a list with one entry replaced. -/
theorem getElem?_set_cases {entry found : α} {other : Nat}
    (there : (entries.set index entry)[other]? = some found) :
    (other = index ∧ found = entry) ∨ (other ≠ index ∧ entries[other]? = some found) := by
  by_cases same : index = other
  · subst same
    rw [getElem?_set_self'] at there
    obtain ⟨_, _, rfl⟩ := Option.map_eq_some_iff.mp there
    exact .inl ⟨rfl, rfl⟩
  · rw [getElem?_set_ne same] at there
    exact .inr ⟨Ne.symm same, there⟩

end List
