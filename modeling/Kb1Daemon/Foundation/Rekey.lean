import Kb1Daemon.Foundation.Table

/-! # Tables under other keys

A table is rekeyed by a partial function on its keys, either entry by entry (`Table.rekey`) or by
setting the entries one after another in a new table (`Table.gather`). What is found under a
target is what was under the only key that leads there.
-/

universe u v w

namespace Table

variable {Key : Type u} {Value : Type v}

/-- The entries under their new keys. -/
def rekey {Other : Type w} (moves : Key → Option Other) (table : Table Key Value) :
    Table Other Value :=
  ⟨table.entries.filterMap fun entry => (moves entry.1).map fun key => (key, entry.2)⟩

variable [DecidableEq Key]

/-- The entries, set one after another under their new keys. -/
def gather (moves : Key → Option Key) (table : Table Key Value) : Table Key Value :=
  table.entries.foldl
    (fun next entry =>
      match moves entry.1 with
      | none => next
      | some key => next.set key entry.2)
    empty

variable {moves : Key → Option Key} {table : Table Key Value} {source target : Key}

theorem get_cons (entry : Key × Value) (rest : List (Key × Value)) (key : Key) :
    (⟨entry :: rest⟩ : Table Key Value).get key =
      if entry.1 = key then some entry.2 else (⟨rest⟩ : Table Key Value).get key := by
  unfold get
  rw [List.find?_cons]
  by_cases same : entry.1 = key <;> simp [same]

/-- The entries of one table before those of another. -/
def layered (top bottom : Table Key Value) : Table Key Value := ⟨top.entries ++ bottom.entries⟩

theorem get_layered (top bottom : Table Key Value) (key : Key) :
    (layered top bottom).get key = (top.get key).or (bottom.get key) := by
  rcases top with ⟨entries⟩
  unfold layered
  induction entries with
  | nil => rfl
  | cons entry rest ih =>
      rw [List.cons_append, get_cons, get_cons]
      by_cases own : entry.1 = key
      · rw [if_pos own, if_pos own, Option.some_or]
      · rw [if_neg own, if_neg own]
        exact ih

section Rekey

variable {Other : Type w} [DecidableEq Other] {leads : Key → Option Other} {place : Other}

theorem get_rekey_of_only (only : ∀ key, leads key = some place ↔ key = source) :
    (table.rekey leads).get place = table.get source := by
  rcases table with ⟨entries⟩
  induction entries with
  | nil => rfl
  | cons entry rest ih =>
      unfold rekey at ih ⊢
      rw [get_cons, List.filterMap_cons]
      by_cases own : entry.1 = source
      · rw [if_pos own, (only entry.1).mpr own, Option.map_some, get_cons, if_pos rfl]
      · rw [if_neg own]
        cases moved : leads entry.1 with
        | none => exact ih
        | some key =>
            have other : key ≠ place := by
              rintro rfl
              exact own ((only entry.1).mp moved)
            rw [Option.map_some, get_cons, if_neg other]
            exact ih

omit [DecidableEq Key] in
theorem get_rekey_of_none (nowhere : ∀ key, leads key ≠ some place) :
    (table.rekey leads).get place = none := by
  rw [get, Option.map_eq_none_iff, List.find?_eq_none]
  intro entry listed
  obtain ⟨old, _, moved⟩ := List.mem_filterMap.mp listed
  obtain ⟨key, found, rfl⟩ := Option.map_eq_some_iff.mp moved
  rw [decide_eq_true_eq]
  rintro rfl
  exact nowhere old.1 found

end Rekey

theorem get_foldl_set_of_none {entries : List (Key × Value)}
    (nowhere : ∀ entry ∈ entries, moves entry.1 ≠ some target) (next : Table Key Value) :
    (entries.foldl
      (fun next entry =>
        match moves entry.1 with
        | none => next
        | some key => next.set key entry.2)
      next).get target = next.get target := by
  induction entries generalizing next with
  | nil => rfl
  | cons entry rest ih =>
      rw [List.foldl_cons, ih fun other listed => nowhere other (List.mem_cons_of_mem _ listed)]
      have away := nowhere entry List.mem_cons_self
      cases moved : moves entry.1 with
      | none => rfl
      | some key =>
          rw [moved] at away
          rw [get_set, if_neg fun same => away (congrArg some same.symm)]

theorem get_foldl_set {entries : List (Key × Value)} (unique : (entries.map Prod.fst).Nodup)
    (only : ∀ entry ∈ entries, moves entry.1 = some target ↔ entry.1 = source)
    (next : Table Key Value) :
    (entries.foldl
      (fun next entry =>
        match moves entry.1 with
        | none => next
        | some key => next.set key entry.2)
      next).get target =
      ((⟨entries⟩ : Table Key Value).get source).or (next.get target) := by
  induction entries generalizing next with
  | nil => rfl
  | cons entry rest ih =>
      rw [List.map_cons, List.nodup_cons] at unique
      have own := only entry List.mem_cons_self
      rw [List.foldl_cons, get_cons]
      by_cases same : entry.1 = source
      · have nowhere : ∀ other ∈ rest, moves other.1 ≠ some target := by
          intro other listed moved
          have alike := (only other (List.mem_cons_of_mem _ listed)).mp moved
          exact unique.1 (same.trans alike.symm ▸ List.mem_map_of_mem listed)
        rw [get_foldl_set_of_none nowhere, own.mpr same, if_pos same, Option.some_or, get_set,
          if_pos rfl]
      · rw [ih unique.2 (fun other listed => only other (List.mem_cons_of_mem _ listed)),
          if_neg same]
        have away : moves entry.1 ≠ some target := fun moved => same (own.mp moved)
        cases moved : moves entry.1 with
        | none => rfl
        | some key =>
            rw [moved] at away
            rw [get_set, if_neg fun same => away (congrArg some same.symm)]

theorem get_gather (unique : table.Unique)
    (only : ∀ entry ∈ table.entries, moves entry.1 = some target ↔ entry.1 = source) :
    (table.gather moves).get target = table.get source := by
  rw [gather, get_foldl_set unique only]
  exact Option.or_none

theorem get_gather_of_none (nowhere : ∀ entry ∈ table.entries, moves entry.1 ≠ some target) :
    (table.gather moves).get target = none := by
  rw [gather, get_foldl_set_of_none nowhere]
  rfl

theorem unique_gather : (table.gather moves).Unique := by
  unfold gather
  suffices ∀ (entries : List (Key × Value)) (next : Table Key Value), next.Unique →
      (entries.foldl
        (fun next entry =>
          match moves entry.1 with
          | none => next
          | some key => next.set key entry.2)
        next).Unique from this table.entries empty unique_empty
  intro entries
  induction entries with
  | nil => exact fun _ unique => unique
  | cons entry rest ih =>
      intro next unique
      rw [List.foldl_cons]
      apply ih
      cases moves entry.1 with
      | none => exact unique
      | some key => exact unique.set key entry.2

end Table
