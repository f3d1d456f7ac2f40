import Mathlib.Data.List.Nodup

/-! # Insertion-ordered maps

A map with a list of entries: setting a key that is there replaces its value in place,
setting a new key appends an entry. What a map holds after an operation is described by
membership (`Table.holds_set`, `Table.holds_delete`); lookup and membership agree as long
as no key has two entries (`Table.Unique`). A map whose entries are among those of
another one (`Table.Within`) keeps its keys unique and its values under single keys
(`Table.Injective`).
-/

universe u v

/-- A map with its entries in insertion order. -/
structure Table (Key : Type u) (Value : Type v) where
  entries : List (Key × Value)
  deriving DecidableEq

namespace Table

variable {Key : Type u} {Value : Type v}

/-- The map without entries. -/
def empty : Table Key Value := ⟨[]⟩

/-- The map has an entry for the key with the value. -/
def Holds (table : Table Key Value) (key : Key) (value : Value) : Prop :=
  (key, value) ∈ table.entries

/-- No key has two entries. -/
def Unique (table : Table Key Value) : Prop := (table.entries.map Prod.fst).Nodup

/-- No value has two keys. -/
def Injective (table : Table Key Value) : Prop :=
  ∀ first second value, table.Holds first value → table.Holds second value → first = second

/-- The entries of the first map are entries of the second one, in the same order. -/
def Within (narrow wide : Table Key Value) : Prop := narrow.entries.Sublist wide.entries

namespace Within

variable {narrow middle wide : Table Key Value}

/-- A table is within itself. -/
theorem refl (table : Table Key Value) : table.Within table := List.Sublist.refl _

/-- What is within a part is within the whole. -/
theorem trans (first : narrow.Within middle) (second : middle.Within wide) :
    narrow.Within wide :=
  List.Sublist.trans first second

/-- What a part holds, the whole holds. -/
theorem holds (within : narrow.Within wide) {key : Key} {value : Value}
    (held : narrow.Holds key value) : wide.Holds key value :=
  List.Sublist.subset within held

/-- A part of a table with unique keys has unique keys. -/
theorem unique (within : narrow.Within wide) (unique : wide.Unique) : narrow.Unique :=
  List.Nodup.sublist (List.Sublist.map Prod.fst within) unique

/-- A part of an injective table is injective. -/
theorem injective (within : narrow.Within wide) (injective : wide.Injective) :
    narrow.Injective :=
  fun first second value holdsFirst holdsSecond =>
    injective first second value (within.holds holdsFirst) (within.holds holdsSecond)

end Within

/-- The empty table has unique keys. -/
theorem unique_empty : (empty : Table Key Value).Unique := List.nodup_nil

/-- Under unique keys a key holds one value. -/
theorem Unique.value_eq {table : Table Key Value} (unique : table.Unique) {key : Key}
    {first second : Value} (holdsFirst : table.Holds key first)
    (holdsSecond : table.Holds key second) : first = second := by
  have same := List.inj_on_of_nodup_map unique holdsFirst holdsSecond rfl
  exact (Prod.mk.inj same).2

/-- Change every value. -/
def mapValues (table : Table Key Value) (change : Value → Value) : Table Key Value :=
  ⟨table.entries.map fun entry => (entry.1, change entry.2)⟩

/-- Changing the values leaves the keys where they are. -/
theorem holds_mapValues {table : Table Key Value} {change : Value → Value} {key : Key}
    {value : Value} :
    (table.mapValues change).Holds key value ↔ ∃ old, table.Holds key old ∧ change old = value := by
  unfold mapValues Holds
  rw [List.mem_map]
  constructor
  · rintro ⟨⟨own, old⟩, listed, same⟩
    obtain ⟨rfl, changed⟩ := Prod.mk.inj same
    exact ⟨old, listed, changed⟩
  · rintro ⟨old, listed, rfl⟩
    exact ⟨_, listed, rfl⟩

/-- Changing the values leaves the keys unique. -/
theorem Unique.mapValues {table : Table Key Value} (unique : table.Unique)
    (change : Value → Value) : (table.mapValues change).Unique := by
  unfold Table.mapValues Unique
  rw [List.map_map]
  exact unique

variable [DecidableEq Key]

/-- The value of a key. -/
def get (table : Table Key Value) (key : Key) : Option Value :=
  (table.entries.find? fun entry => entry.1 = key).map Prod.snd

/-- Set the value of a key. -/
def set (table : Table Key Value) (key : Key) (value : Value) : Table Key Value :=
  if table.entries.any fun entry => entry.1 = key then
    ⟨table.entries.map fun entry => if entry.1 = key then (key, value) else entry⟩
  else ⟨table.entries ++ [(key, value)]⟩

/-- The entries whose keys are kept. -/
def keep (table : Table Key Value) (keeps : Key → Bool) : Table Key Value :=
  ⟨table.entries.filter fun entry => keeps entry.1⟩

/-- What is kept is found as before, and nothing else is. -/
theorem get_keep (table : Table Key Value) (keeps : Key → Bool) (key : Key) :
    (table.keep keeps).get key = if keeps key then table.get key else none := by
  unfold keep get
  rw [List.find?_filter]
  split_ifs with kept
  · congr 2
    funext entry
    by_cases same : entry.1 = key
    · simp [same, kept]
    · simp [same]
  · rw [Option.map_eq_none_iff, List.find?_eq_none]
    intro entry _ found
    rw [decide_eq_true_eq, decide_eq_true_eq] at found
    exact kept (found.2 ▸ found.1)

/-- A key has a value when it has an entry. -/
theorem isSome_get_iff {table : Table Key Value} {key : Key} :
    (table.get key).isSome = true ↔ ∃ entry ∈ table.entries, entry.1 = key := by
  rw [get, Option.isSome_map, List.find?_isSome]
  simp

/-- Delete a key. -/
def delete (table : Table Key Value) (key : Key) : Table Key Value :=
  ⟨table.entries.filter fun entry => entry.1 ≠ key⟩

/-- A deleted key is gone, every other one is found as before. -/
theorem get_delete (table : Table Key Value) (key other : Key) :
    (table.delete key).get other = if other = key then none else table.get other := by
  have same : table.delete key = table.keep fun other => other ≠ key := rfl
  rw [same, get_keep]
  by_cases own : other = key <;> simp [own]

/-- What is found is held. -/
theorem holds_of_get {table : Table Key Value} {key : Key} {value : Value}
    (found : table.get key = some value) : table.Holds key value := by
  obtain ⟨⟨other, stored⟩, located, rfl⟩ := Option.map_eq_some_iff.mp found
  have same : other = key := by simpa using List.find?_some located
  rw [← same]
  exact List.mem_of_find?_eq_some located

/-- A key that is not found holds nothing. -/
theorem not_holds_of_get {table : Table Key Value} {key : Key} (absent : table.get key = none)
    (value : Value) : ¬ table.Holds key value := by
  intro held
  have missing := List.find?_eq_none.mp (Option.map_eq_none_iff.mp absent) _ held
  simp at missing

/-- Under unique keys what is held is found. -/
theorem Unique.get_eq {table : Table Key Value} (unique : table.Unique) {key : Key}
    {value : Value} (held : table.Holds key value) : table.get key = some value := by
  cases found : table.get key with
  | none => exact absurd held (not_holds_of_get found value)
  | some other => rw [unique.value_eq (holds_of_get found) held]

/-- A key that is set has its new value, every other one is found as before. -/
theorem get_set (table : Table Key Value) (key other : Key) (value : Value) :
    (table.set key value).get other = if other = key then some value else table.get other := by
  unfold set get
  split
  · rename_i present
    have seen : (fun entry : Key × Value => decide (entry.1 = other)) ∘
        (fun entry : Key × Value => if entry.1 = key then (key, value) else entry) =
          fun entry => decide (entry.1 = other) := by
      funext entry
      by_cases same : entry.1 = key
      · simp [same]
      · simp [same]
    rw [List.find?_map, seen, Option.map_map]
    by_cases same : other = key
    · subst same
      obtain ⟨entry, listed, own⟩ := List.any_eq_true.mp present
      have located := (@List.find?_isSome _ table.entries fun entry => decide (entry.1 = other)).mpr
        ⟨entry, listed, own⟩
      obtain ⟨first, found⟩ := Option.isSome_iff_exists.mp located
      have own : first.1 = other := by simpa using List.find?_some found
      simp [found, own]
    · rw [if_neg same]
      cases found : table.entries.find? fun entry => decide (entry.1 = other) with
      | none => rfl
      | some entry =>
          have own : entry.1 = other := by simpa using List.find?_some found
          simp [own, same]
  · rename_i absent
    rw [List.find?_append, List.find?_singleton]
    by_cases same : other = key
    · subst same
      have missing : table.entries.find? (fun entry => decide (entry.1 = other)) = none := by
        rw [List.find?_eq_none]
        exact fun entry listed own => absent (List.any_eq_true.mpr ⟨entry, listed, own⟩)
      simp [missing]
    · simp [same, Ne.symm same]

/-- A key that is set holds its new value only, every other one what it held. -/
theorem holds_set {table : Table Key Value} {key other : Key} {value stored : Value} :
    (table.set key value).Holds other stored ↔
      other = key ∧ stored = value ∨ other ≠ key ∧ table.Holds other stored := by
  unfold set Holds
  split
  · rename_i present
    obtain ⟨⟨present, old⟩, member, same⟩ := List.any_eq_true.mp present
    rw [List.mem_map]
    constructor
    · rintro ⟨⟨place, content⟩, listed, result⟩
      dsimp only at result
      split at result
      · obtain ⟨rfl, rfl⟩ := Prod.mk.inj result
        exact .inl ⟨rfl, rfl⟩
      · rename_i different
        obtain ⟨rfl, rfl⟩ := Prod.mk.inj result
        exact .inr ⟨different, listed⟩
    · rintro (⟨rfl, rfl⟩ | ⟨different, listed⟩)
      · exact ⟨_, member, if_pos (by simpa using same)⟩
      · exact ⟨_, listed, if_neg different⟩
  · rename_i absent
    rw [List.mem_append, List.mem_singleton, Prod.mk.injEq]
    constructor
    · rintro (listed | added)
      · refine .inr ⟨fun same => absent ?_, listed⟩
        exact List.any_eq_true.mpr ⟨_, listed, by simpa using same⟩
      · exact .inl added
    · rintro (added | ⟨_, listed⟩)
      · exact .inr added
      · exact .inl listed

/-- A deleted key holds nothing, every other one what it held. -/
theorem holds_delete {table : Table Key Value} {key other : Key} {stored : Value} :
    (table.delete key).Holds other stored ↔ other ≠ key ∧ table.Holds other stored := by
  unfold delete Holds
  rw [List.mem_filter]
  constructor
  · rintro ⟨listed, different⟩
    exact ⟨by simpa using different, listed⟩
  · rintro ⟨different, listed⟩
    exact ⟨listed, by simpa using different⟩

/-- Setting a key leaves the keys unique. -/
theorem Unique.set {table : Table Key Value} (unique : table.Unique) (key : Key) (value : Value) :
    (table.set key value).Unique := by
  unfold Table.set Unique
  split
  · rw [List.map_map]
    have keys : (Prod.fst ∘ fun entry : Key × Value =>
        if entry.1 = key then (key, value) else entry) = Prod.fst := by
      funext entry
      simp only [Function.comp_apply]
      split
      · rename_i same
        exact same.symm
      · rfl
    rw [keys]
    exact unique
  · rename_i absent
    rw [List.map_append, List.nodup_append]
    refine ⟨unique, List.nodup_singleton _, ?_⟩
    rintro other member _ added rfl
    obtain ⟨entry, listed, rfl⟩ := List.mem_map.mp member
    exact absent (List.any_eq_true.mpr ⟨entry, listed, by simpa using added⟩)

/-- Setting a key to a value that no other key holds leaves the table injective. -/
theorem Injective.set {table : Table Key Value} (injective : table.Injective) {key : Key}
    {value : Value} (apart : ∀ other, other ≠ key → ¬ table.Holds other value) :
    (table.set key value).Injective := by
  intro first second stored holdsFirst holdsSecond
  rcases holds_set.mp holdsFirst with ⟨rfl, rfl⟩ | ⟨elsewhere, old⟩
  · rcases holds_set.mp holdsSecond with ⟨rfl, _⟩ | ⟨elsewhere, old⟩
    · rfl
    · exact absurd old (apart second elsewhere)
  · rcases holds_set.mp holdsSecond with ⟨rfl, rfl⟩ | ⟨_, other⟩
    · exact absurd old (apart first elsewhere)
    · exact injective first second stored old other

/-- Deleting a key leaves a part of the table. -/
theorem within_delete (table : Table Key Value) (key : Key) : (table.delete key).Within table :=
  List.filter_sublist

variable [DecidableEq Value]

/-- The first key of a value. -/
def keyOf (table : Table Key Value) (value : Value) : Option Key :=
  (table.entries.find? fun entry => entry.2 = value).map Prod.fst

/-- Delete every key of a value. -/
def deleteValue (table : Table Key Value) (value : Value) : Table Key Value :=
  ⟨table.entries.filter fun entry => entry.2 ≠ value⟩

omit [DecidableEq Key] in
/-- The key that is found for a value holds it. -/
theorem holds_of_keyOf {table : Table Key Value} {key : Key} {value : Value}
    (found : table.keyOf value = some key) : table.Holds key value := by
  obtain ⟨⟨stored, other⟩, located, rfl⟩ := Option.map_eq_some_iff.mp found
  have same : other = value := by simpa using List.find?_some located
  rw [← same]
  exact List.mem_of_find?_eq_some located

omit [DecidableEq Key] in
/-- A value without a key is held nowhere. -/
theorem not_holds_of_keyOf {table : Table Key Value} {value : Value}
    (absent : table.keyOf value = none) (key : Key) : ¬ table.Holds key value := by
  intro held
  have missing := List.find?_eq_none.mp (Option.map_eq_none_iff.mp absent) _ held
  simp at missing

omit [DecidableEq Key] in
/-- Deleting a value leaves a part of the table. -/
theorem within_deleteValue (table : Table Key Value) (value : Value) :
    (table.deleteValue value).Within table :=
  List.filter_sublist

end Table
