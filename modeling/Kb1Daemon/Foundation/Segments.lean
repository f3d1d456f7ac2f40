import Mathlib.Data.List.Basic
import Mathlib.Data.List.Infix

/-! # Paths and their segments

A path is its segments joined by a separator. Proper segments are nonempty and free of the
separator; lists of proper segments are read back from the path they are joined to
(`Segments.splitOn_joined`), and so are told apart by it (`Segments.joined_injective`).
-/

universe u

namespace Segments

variable {Item : Type u} [DecidableEq Item] {separator : Item}

/-- The segments, joined to a path. -/
def joined (separator : Item) (segments : List (List Item)) : List Item :=
  [separator].intercalate segments

/-- The path of an entry of a directory; the empty path is the root. -/
def child (separator : Item) (parent segment : List Item) : List Item :=
  if parent.isEmpty then segment else parent ++ separator :: segment

/-- The path and the paths above it. -/
def ancestry (separator : Item) (path : List Item) : List (List Item) :=
  ((path.splitOn separator).inits.filter fun front => !front.isEmpty).map (joined separator)

/-- The path above a path, if there is one. -/
def parent (separator : Item) (path : List Item) : Option (List Item) :=
  if (path.splitOn separator).length ≤ 1 then none
  else some (joined separator (path.splitOn separator).dropLast)

/-- The last segment of a path. -/
def lastOf (separator : Item) (path : List Item) : List Item :=
  (path.splitOn separator).getLastD []

/-- A segment is not empty and has no separator. -/
structure Proper (separator : Item) (segment : List Item) : Prop where
  ne_nil : segment ≠ []
  not_mem : separator ∉ segment

theorem not_mem_of_mem_splitOn (path : List Item) :
    ∀ segment ∈ path.splitOn separator, separator ∉ segment := by
  induction path with
  | nil =>
      intro segment member
      rw [List.splitOn_nil] at member
      rw [List.mem_singleton.mp member]
      exact List.not_mem_nil
  | cons item path ih =>
      intro segment member
      rw [List.splitOn_cons_eq_if_modifyHead] at member
      split at member
      · rcases List.mem_cons.mp member with rfl | later
        · exact List.not_mem_nil
        · exact ih segment later
      · rename_i other
        obtain ⟨first, rest, split⟩ := List.exists_cons_of_ne_nil (List.splitOn_ne_nil separator path)
        rw [split] at member ih
        rcases List.mem_cons.mp member with rfl | later
        · rw [List.mem_cons]
          rintro (same | inside)
          · exact other (beq_iff_eq.mpr same.symm)
          · exact ih first List.mem_cons_self inside
        · exact ih segment (List.mem_cons_of_mem _ later)

omit [DecidableEq Item] in
/-- No segments make an empty path. -/
theorem joined_nil : joined separator [] = [] := rfl

omit [DecidableEq Item] in
/-- One segment is a path. -/
theorem joined_singleton (segment : List Item) : joined separator [segment] = segment :=
  List.intercalate_singleton

omit [DecidableEq Item] in
theorem joined_cons_cons (first second : List Item) (rest : List (List Item)) :
    joined separator (first :: second :: rest) =
      first ++ separator :: joined separator (second :: rest) := by
  rw [joined, joined, List.intercalate_cons_cons, List.append_assoc, List.singleton_append]

omit [DecidableEq Item] in
/-- The items of a path are the separator and those of its segments. -/
theorem mem_joined_iff {item : Item} (other : item ≠ separator) {segments : List (List Item)} :
    item ∈ joined separator segments ↔ ∃ segment ∈ segments, item ∈ segment := by
  induction segments with
  | nil => simp [joined_nil]
  | cons first rest ih =>
      cases rest with
      | nil => simp [joined_singleton]
      | cons second rest =>
          rw [joined_cons_cons, List.mem_append, List.mem_cons, ih, List.exists_mem_cons_iff]
          simp [other]

omit [DecidableEq Item] in
/-- Joined proper segments are empty only when there are none. -/
theorem joined_ne_nil {segments : List (List Item)}
    (proper : ∀ segment ∈ segments, Proper separator segment) (some : segments ≠ []) :
    joined separator segments ≠ [] := by
  obtain ⟨first, rest, rfl⟩ := List.exists_cons_of_ne_nil some
  have nonempty := (proper first List.mem_cons_self).ne_nil
  cases rest with
  | nil =>
      rw [joined_singleton]
      exact nonempty
  | cons second rest =>
      rw [joined_cons_cons]
      exact List.append_ne_nil_of_left_ne_nil nonempty _

omit [DecidableEq Item] in
/-- A segment more is an entry of the joined path. -/
theorem joined_concat {segments : List (List Item)}
    (proper : ∀ segment ∈ segments, Proper separator segment) (segment : List Item) :
    joined separator (segments ++ [segment]) = child separator (joined separator segments) segment := by
  induction segments with
  | nil => simp [joined_nil, joined_singleton, child]
  | cons first rest ih =>
      have nonempty := joined_ne_nil proper (List.cons_ne_nil first rest)
      have later := ih fun other member => proper other (List.mem_cons_of_mem _ member)
      rw [child, if_neg (by simpa using nonempty)]
      cases rest with
      | nil =>
          rw [joined_singleton, List.singleton_append, joined_cons_cons, joined_singleton]
      | cons second rest =>
          have inner := joined_ne_nil
            (fun other member => proper other (List.mem_cons_of_mem _ member))
            (List.cons_ne_nil second rest)
          rw [child, if_neg (by simpa using inner)] at later
          rw [List.cons_append, List.cons_append, joined_cons_cons, ← List.cons_append, later,
            joined_cons_cons, List.append_assoc, List.cons_append]

omit [DecidableEq Item] in
theorem joined_append {left right : List (List Item)} (some : left ≠ []) (other : right ≠ []) :
    joined separator (left ++ right) =
      joined separator left ++ separator :: joined separator right := by
  induction left with
  | nil => exact absurd rfl some
  | cons first rest ih =>
      cases rest with
      | nil =>
          obtain ⟨second, others, rfl⟩ := List.exists_cons_of_ne_nil other
          rw [List.singleton_append, joined_cons_cons, joined_singleton]
      | cons second rest =>
          rw [List.cons_append, List.cons_append, joined_cons_cons, ← List.cons_append,
            ih (List.cons_ne_nil _ _), joined_cons_cons, List.append_assoc, List.cons_append]

theorem splitOn_joined {segments : List (List Item)}
    (proper : ∀ segment ∈ segments, Proper separator segment) (some : segments ≠ []) :
    (joined separator segments).splitOn separator = segments :=
  List.splitOn_intercalate separator (fun segment member => (proper segment member).not_mem) some

theorem joined_splitOn (path : List Item) : joined separator (path.splitOn separator) = path :=
  List.intercalate_splitOn separator

omit [DecidableEq Item] in
/-- Between two segments is a separator. -/
theorem length_le_length_joined (segments : List (List Item)) :
    segments.length ≤ (joined separator segments).length + 1 := by
  induction segments with
  | nil => exact Nat.zero_le _
  | cons first rest ih =>
      cases rest with
      | nil => exact Nat.succ_le_succ (Nat.zero_le _)
      | cons second rest =>
          rw [joined_cons_cons]
          simp only [List.length_append, List.length_cons] at ih ⊢
          omega

theorem length_splitOn_le (path : List Item) :
    (path.splitOn separator).length ≤ path.length + 1 := by
  have count := @length_le_length_joined _ separator (path.splitOn separator)
  rwa [joined_splitOn] at count

/-- Paths are joined as their segments are. -/
theorem joined_flatMap_splitOn (paths : List (List Item)) :
    joined separator (paths.flatMap (List.splitOn separator)) = joined separator paths := by
  induction paths with
  | nil => rfl
  | cons path rest ih =>
      cases rest with
      | nil => rw [List.flatMap_singleton, joined_splitOn, joined_singleton]
      | cons second rest =>
          have later : (second :: rest).flatMap (List.splitOn separator) ≠ [] := by
            rw [List.flatMap_cons]
            exact List.append_ne_nil_of_left_ne_nil (List.splitOn_ne_nil separator second) _
          rw [List.flatMap_cons, joined_append (List.splitOn_ne_nil separator path) later,
            joined_splitOn, ih, joined_cons_cons]

/-- Lists of proper segments are told apart by the paths they are joined to. -/
theorem joined_injective {left right : List (List Item)}
    (properLeft : ∀ segment ∈ left, Proper separator segment)
    (properRight : ∀ segment ∈ right, Proper separator segment)
    (same : joined separator left = joined separator right) : left = right := by
  by_cases none : left = []
  · subst none
    by_contra different
    exact joined_ne_nil properRight (Ne.symm different) same.symm
  · by_cases other : right = []
    · subst other
      exact absurd same (joined_ne_nil properLeft none)
    · rw [← splitOn_joined properLeft none, same, splitOn_joined properRight other]

theorem mem_ancestry {path ancestor : List Item} :
    ancestor ∈ ancestry separator path ↔
      ∃ front, front ≠ [] ∧ front <+: path.splitOn separator ∧ joined separator front = ancestor := by
  simp only [ancestry, List.mem_map, List.mem_filter, List.mem_inits, Bool.not_eq_true',
    List.isEmpty_eq_false_iff]
  constructor
  · rintro ⟨front, ⟨above, some⟩, same⟩
    exact ⟨front, some, above, same⟩
  · rintro ⟨front, some, above, same⟩
    exact ⟨front, ⟨above, some⟩, same⟩

theorem parent_joined {segments : List (List Item)}
    (proper : ∀ segment ∈ segments, Proper separator segment) (segment : List Item)
    (last : Proper separator segment) :
    parent separator (joined separator (segments ++ [segment])) =
      if segments = [] then none else some (joined separator segments) := by
  have all : ∀ other ∈ segments ++ [segment], Proper separator other := by
    intro other member
    rcases List.mem_append.mp member with earlier | own
    · exact proper other earlier
    · rwa [List.mem_singleton.mp own]
  rw [parent, splitOn_joined all (by simp), List.dropLast_concat, List.length_append,
    List.length_singleton]
  by_cases none : segments = []
  · simp [none]
  · rw [if_neg none, if_neg]
    have := List.length_pos_iff.mpr none
    omega

/-- The last segment of a path. -/
theorem lastOf_joined {segments : List (List Item)}
    (proper : ∀ segment ∈ segments, Proper separator segment) (segment : List Item)
    (last : Proper separator segment) :
    lastOf separator (joined separator (segments ++ [segment])) = segment := by
  have all : ∀ other ∈ segments ++ [segment], Proper separator other := by
    intro other member
    rcases List.mem_append.mp member with earlier | own
    · exact proper other earlier
    · rwa [List.mem_singleton.mp own]
  rw [lastOf, splitOn_joined all (by simp)]
  simp

end Segments
