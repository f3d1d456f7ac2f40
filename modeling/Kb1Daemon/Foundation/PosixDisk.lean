import Kb1Daemon.Foundation.Table
import Mathlib.Data.List.Infix

/-! # A file tree with modes and times

A disk has directories and regular files under paths of names, and what is above an entry is a
directory (`Posix.Disk.closed`). The rights that count are those of the owner; a privileged user
needs none. A recursive removal takes away all that is at or below a path unless a directory
there has entries and is not readable, writable and searchable (`Posix.Disk.remove_spec`,
`Posix.Disk.remove_fails_of_locked`).
-/

universe u v

namespace Posix

/-- A directory or a file, with its mode and the time of its last modification. -/
inductive Entry (Content : Type v) where
  | directory (mode : Nat) (modified : Int)
  | file (content : Content) (mode : Nat) (modified : Int)
  deriving DecidableEq, Repr

namespace Entry

variable {Content : Type v}

def isDirectory : Entry Content → Bool
  | .directory .. => true
  | .file .. => false

def withMode (mode : Nat) : Entry Content → Entry Content
  | .directory _ modified => .directory mode modified
  | .file content _ modified => .file content mode modified

def withTime (modified : Int) : Entry Content → Entry Content
  | .directory mode _ => .directory mode modified
  | .file content mode _ => .file content mode modified

/-- A directory that grants all the rights to its owner. -/
def grants (privileged : Bool) (rights : Nat) : Entry Content → Bool
  | .directory mode _ => privileged || mode &&& rights = rights
  | .file .. => false

/-- A change of mode makes no directory of a file. -/
@[simp]
theorem isDirectory_withMode (mode : Nat) (entry : Entry Content) :
    (entry.withMode mode).isDirectory = entry.isDirectory := by
  cases entry <;> rfl

/-- A change of time makes no directory of a file. -/
@[simp]
theorem isDirectory_withTime (modified : Int) (entry : Entry Content) :
    (entry.withTime modified).isDirectory = entry.isDirectory := by
  cases entry <;> rfl

/-- A change of time changes no rights. -/
@[simp]
theorem grants_withTime (privileged : Bool) (rights : Nat) (modified : Int)
    (entry : Entry Content) :
    (entry.withTime modified).grants privileged rights = entry.grants privileged rights := by
  cases entry <;> rfl

/-- Only directories grant rights. -/
theorem isDirectory_of_grants {privileged : Bool} {rights : Nat} {entry : Entry Content}
    (granted : entry.grants privileged rights = true) : entry.isDirectory = true := by
  cases entry with
  | directory => rfl
  | file => cases granted

end Entry

/-- Equality of paths is decided name by name. -/
scoped instance lawfulPaths {Name : Type u} [DecidableEq Name] : LawfulBEq (List Name) :=
  List.instLawfulBEq

/-- The paths above a path. -/
def above {Name : Type u} [DecidableEq Name] (path : List Name) : List (List Name) :=
  path.inits.filter (· ≠ path)

/-- The places above a path are its proper prefixes. -/
theorem mem_above {Name : Type u} [DecidableEq Name] {front path : List Name} :
    front ∈ above path ↔ front <+: path ∧ front ≠ path := by
  rw [above, List.mem_filter, List.mem_inits, decide_eq_true_eq]

/-- The places above an entry are its directory and those above it. -/
theorem mem_above_concat {Name : Type u} [DecidableEq Name] {front path : List Name} {name : Name} :
    front ∈ above (path ++ [name]) ↔ front <+: path := by
  rw [mem_above, List.prefix_concat_iff]
  constructor
  · rintro ⟨rfl | front, different⟩
    · exact absurd rfl different
    · exact front
  · intro inner
    refine ⟨.inr inner, ?_⟩
    rintro rfl
    have length := inner.length_le
    rw [List.length_append, List.length_singleton] at length
    omega

/-- Entries under paths; what is above an entry is a directory. -/
structure Disk (Name : Type u) (Content : Type v) [DecidableEq Name] where
  table : Table (List Name) (Entry Content)
  closed : ∀ path name, (table.get (path ++ [name])).isSome = true →
    (table.get path).any Entry.isDirectory = true

namespace Disk

variable {Name : Type u} {Content : Type v} [DecidableEq Name]

/-- A disk with nothing but its root. -/
def rootOnly (mode : Nat) (modified : Int) : Disk Name Content where
  table := ⟨[([], .directory mode modified)]⟩
  closed path name := by
    intro present
    rw [Table.get, List.find?_singleton, if_neg (by simp)] at present
    cases present

variable (disk : Disk Name Content)

def get (path : List Name) : Option (Entry Content) := disk.table.get path

def isDirectoryAt (path : List Name) : Bool := (disk.get path).any Entry.isDirectory

variable {disk}

/-- A directory at a path is found with its mode and its time. -/
theorem isDirectoryAt_iff {path : List Name} :
    disk.isDirectoryAt path = true ↔ ∃ mode modified, disk.get path = some (.directory mode modified) := by
  rw [isDirectoryAt]
  rcases disk.get path with _ | ⟨mode, modified⟩ | ⟨content, mode, modified⟩ <;>
    simp [Entry.isDirectory]

/-- Above what is there are directories. -/
theorem isDirectoryAt_above {path front : List Name} (present : (disk.get path).isSome = true)
    (higher : front ∈ above path) : disk.isDirectoryAt front = true := by
  induction path using List.reverseRecOn with
  | nil =>
      obtain ⟨inner, different⟩ := mem_above.mp higher
      exact absurd (List.prefix_nil.mp inner) different
  | append_singleton path name ih =>
      have parent : disk.isDirectoryAt path = true := disk.closed path name present
      by_cases same : front = path
      · rwa [same]
      · obtain ⟨mode, modified, found⟩ := isDirectoryAt_iff.mp parent
        refine ih ?_ (mem_above.mpr ⟨mem_above_concat.mp higher, same⟩)
        rw [found, Option.isSome_some]

/-- Nothing is below what is no directory. -/
theorem get_below_eq_none {path other : List Name} (plain : ¬ disk.isDirectoryAt path = true)
    (below : path ∈ above other) : disk.get other = none := by
  by_contra present
  exact plain (isDirectoryAt_above (Option.isSome_iff_ne_none.mpr present) below)

variable (disk)

/-- Put an entry in a directory, or in place of another one; only a directory takes the place of
a directory. -/
def put (path : List Name) (entry : Entry Content)
    (parent : ∀ front name, path = front ++ [name] → disk.isDirectoryAt front = true)
    (kind : disk.isDirectoryAt path = true → entry.isDirectory = true) : Disk Name Content where
  table := disk.table.set path entry
  closed front name := by
    rw [Table.get_set, Table.get_set]
    intro present
    by_cases own : front = path
    · rw [if_pos own, Option.any_some]
      subst own
      by_contra plain
      have absent : disk.get (front ++ [name]) = none :=
        get_below_eq_none (fun directory => plain (kind directory))
          (mem_above_concat.mpr (List.prefix_refl front))
      rw [if_neg (by simp)] at present
      rw [get] at absent
      rw [absent] at present
      cases present
    · rw [if_neg own]
      by_cases same : front ++ [name] = path
      · exact parent front name same.symm
      · rw [if_neg same] at present
        exact disk.closed front name present

/-- An entry that is put is found, everything else as before. -/
@[simp]
theorem get_put {path : List Name} {entry : Entry Content}
    {parent : ∀ front name, path = front ++ [name] → disk.isDirectoryAt front = true}
    {kind : disk.isDirectoryAt path = true → entry.isDirectory = true} (other : List Name) :
    (disk.put path entry parent kind).get other =
      if other = path then some entry else disk.get other :=
  Table.get_set _ _ _ _

/-- Change an entry, if it is there, and not its kind. -/
def change (path : List Name) (edit : Entry Content → Entry Content)
    (kind : ∀ entry, (edit entry).isDirectory = entry.isDirectory) : Disk Name Content :=
  match found : disk.get path with
  | none => disk
  | some entry =>
      disk.put path (edit entry)
        (fun front name same => isDirectoryAt_above (by rw [found, Option.isSome_some])
          (same ▸ mem_above_concat.mpr (List.prefix_refl front)))
        (fun directory => by
          rw [isDirectoryAt, found, Option.any_some] at directory
          rw [kind, directory])

/-- An entry that is changed is found changed, everything else as before. -/
@[simp]
theorem get_change {path : List Name} {edit : Entry Content → Entry Content}
    {kind : ∀ entry, (edit entry).isDirectory = entry.isDirectory} (other : List Name) :
    (disk.change path edit kind).get other =
      if other = path then (disk.get path).map edit else disk.get other := by
  unfold change
  split
  · rename_i absent
    rw [absent]
    split_ifs with same
    · rw [same, absent, Option.map_none]
    · rfl
  · rename_i entry found
    rw [get_put, found, Option.map_some]

/-- A directory has got or lost an entry. -/
def touch (path : List Name) (now : Int) : Disk Name Content :=
  disk.change path (Entry.withTime now) (Entry.isDirectory_withTime now)

variable (privileged : Bool)

/-- What is above the path can be searched. -/
def traversable (path : List Name) : Bool :=
  (above path).all fun front => (disk.get front).any (Entry.grants privileged 0o100)

/-- An entry can be added or removed at the path. -/
def changeable (path : List Name) : Bool :=
  path ≠ [] && disk.traversable privileged path &&
    (disk.get path.dropLast).any (Entry.grants privileged 0o200)

/-- What may be changed lies in a directory. -/
theorem isDirectoryAt_of_changeable {disk : Disk Name Content} {privileged : Bool}
    {path front : List Name} {name : Name} (free : disk.changeable privileged path = true)
    (same : path = front ++ [name]) : disk.isDirectoryAt front = true := by
  rw [changeable, Bool.and_eq_true, same, List.dropLast_concat] at free
  rw [isDirectoryAt]
  cases found : disk.get front with
  | none =>
      rw [found] at free
      cases free.2
  | some entry =>
      rw [found, Option.any_some] at free
      exact Entry.isDirectory_of_grants free.2

/-- Add an entry where there is none. -/
def add (path : List Name) (entry : Entry Content) (now : Int) : Option (Disk Name Content) :=
  if free : disk.changeable privileged path = true ∧ disk.get path = none then
    some ((disk.touch path.dropLast now).put path entry
      (fun front name same => by
        have directory := isDirectoryAt_of_changeable free.1 same
        rw [same, List.dropLast_concat, isDirectoryAt, touch, get_change, if_pos rfl]
        rw [isDirectoryAt] at directory
        cases found : disk.get front with
        | none => rw [found] at directory; cases directory
        | some stored =>
            rw [found, Option.any_some] at directory
            rw [Option.map_some, Option.any_some, Entry.isDirectory_withTime, directory])
      (fun directory => by
        rw [isDirectoryAt, touch, get_change, free.2] at directory
        split_ifs at directory with same
        · rw [← same, free.2] at directory
          cases directory
        · cases directory))
  else none

/-- `mkdir`. -/
def mkdir (path : List Name) (mode : Nat) (now : Int) : Option (Disk Name Content) :=
  disk.add privileged path (.directory mode now) now

/-- Open a file that is not there, and write it. -/
def create (path : List Name) (content : Content) (mode : Nat) (now : Int) :
    Option (Disk Name Content) :=
  disk.add privileged path (.file content mode now) now

/-- Change the mode or the times of an entry. -/
def update (path : List Name) (edit : Entry Content → Entry Content)
    (kind : ∀ entry, (edit entry).isDirectory = entry.isDirectory) : Option (Disk Name Content) :=
  if disk.traversable privileged path = true ∧ (disk.get path).isSome = true then
    some (disk.change path edit kind)
  else none

def chmod (path : List Name) (mode : Nat) : Option (Disk Name Content) :=
  disk.update privileged path (Entry.withMode mode) (Entry.isDirectory_withMode mode)

def utimes (path : List Name) (modified : Int) : Option (Disk Name Content) :=
  disk.update privileged path (Entry.withTime modified) (Entry.isDirectory_withTime modified)

/-- The entry at the path is a directory that has entries and does not grant all rights. -/
def locked (path : List Name) : Bool :=
  disk.isDirectoryAt path && !(disk.get path).any (Entry.grants privileged 0o700) &&
    disk.table.entries.any fun entry => path ∈ above entry.1

/-- The locked directories at or below a path. -/
def lockedBelow (path : List Name) : List (List Name) :=
  (disk.table.entries.map Prod.fst).filter fun other =>
    path.isPrefixOf other && disk.locked privileged other

/-- What a recursive removal of a path leaves: what is not at or below it, and what is at, above
or below a locked directory. -/
def leaves (path other : List Name) : Bool :=
  !path.isPrefixOf other || (disk.lockedBelow privileged path).any fun directory =>
    directory.isPrefixOf other || other.isPrefixOf directory

/-- A removal leaves what is not below its path, and what a locked directory keeps. -/
theorem leaves_iff {disk : Disk Name Content} {privileged : Bool} {path other : List Name} :
    disk.leaves privileged path other = true ↔ ¬ path <+: other ∨
      ∃ directory ∈ disk.lockedBelow privileged path, directory <+: other ∨ other <+: directory := by
  rw [leaves, Bool.or_eq_true, Bool.not_eq_true', ← Bool.not_eq_true, List.isPrefixOf_iff_prefix,
    List.any_eq_true]
  simp only [Bool.or_eq_true, List.isPrefixOf_iff_prefix]

/-- What a removal leaves, it leaves in its directory. -/
theorem leaves_parent {path front : List Name} {name : Name}
    (left : disk.leaves privileged path (front ++ [name]) = true) :
    disk.leaves privileged path front = true := by
  rw [leaves_iff] at left ⊢
  have lower := List.prefix_append front [name]
  rcases left with outside | ⟨directory, listed, higher | inner⟩
  · exact .inl fun inner => outside (inner.trans lower)
  · refine .inr ⟨directory, listed, ?_⟩
    rcases List.prefix_concat_iff.mp higher with rfl | higher
    · exact .inr lower
    · exact .inl higher
  · exact .inr ⟨directory, listed, .inr (lower.trans inner)⟩

/-- What a recursive removal leaves, as a disk. -/
def leftBy (path : List Name) : Disk Name Content where
  table := disk.table.keep (disk.leaves privileged path)
  closed front name := by
    rw [Table.get_keep, Table.get_keep]
    intro present
    split_ifs at present with left
    · rw [if_pos (disk.leaves_parent privileged left)]
      exact disk.closed front name present
    · cases present

/-- `rm` with `recursive` and `force`, and whether it succeeds. -/
def remove (path : List Name) (now : Int) : Disk Name Content × Bool :=
  if (disk.get path).isNone then (disk, true)
  else if !disk.changeable privileged path then (disk, false)
  else if (disk.lockedBelow privileged path).isEmpty then
    ((disk.leftBy privileged path).touch path.dropLast now, true)
  else (disk.leftBy privileged path, false)

variable {disk privileged}

/-- Whether an entry can be added or removed depends on the rights above it only. -/
theorem changeable_congr {other : Disk Name Content} {path : List Name}
    (same : ∀ front ∈ above path, ∀ rights, (disk.get front).any (Entry.grants privileged rights) =
      (other.get front).any (Entry.grants privileged rights)) :
    disk.changeable privileged path = other.changeable privileged path := by
  cases path using List.reverseRecOn with
  | nil => rfl
  | append_singleton front name =>
      have parent : front ∈ above (front ++ [name]) :=
        mem_above_concat.mpr (List.prefix_refl front)
      have searched : disk.traversable privileged (front ++ [name]) =
          other.traversable privileged (front ++ [name]) := by
        rw [Bool.eq_iff_iff, traversable, traversable, List.all_eq_true, List.all_eq_true]
        exact forall₂_congr fun higher listed => by rw [same higher listed]
      rw [changeable, changeable, searched, List.dropLast_concat, same front parent]

/-- An entry is added exactly where nothing is and the directory may be changed. -/
theorem add_isSome_iff {path : List Name} {entry : Entry Content} {now : Int} :
    (disk.add privileged path entry now).isSome = true ↔
      disk.changeable privileged path = true ∧ disk.get path = none := by
  unfold add
  split_ifs with free
  · exact iff_of_true rfl free
  · exact iff_of_false Bool.false_ne_true free

/-- An added entry is found, its directory has a new time, everything else is as before. -/
theorem get_add {path : List Name} {entry : Entry Content} {now : Int} {next : Disk Name Content}
    (added : disk.add privileged path entry now = some next) (other : List Name) :
    next.get other = if other = path then some entry
      else if other = path.dropLast then (disk.get other).map (Entry.withTime now)
      else disk.get other := by
  unfold add at added
  split_ifs at added
  cases added
  rw [get_put, touch, get_change]
  split_ifs with own parent
  · rfl
  · rw [parent]
  · rfl

/-- An update succeeds exactly on what is there and can be reached. -/
theorem update_isSome_iff {path : List Name} {edit : Entry Content → Entry Content}
    {kind : ∀ entry, (edit entry).isDirectory = entry.isDirectory} :
    (disk.update privileged path edit kind).isSome = true ↔
      disk.traversable privileged path = true ∧ (disk.get path).isSome = true := by
  unfold update
  split_ifs with reached
  · exact iff_of_true rfl reached
  · exact iff_of_false Bool.false_ne_true reached

/-- An updated entry is found changed, everything else as before. -/
theorem get_update {path : List Name} {edit : Entry Content → Entry Content}
    {kind : ∀ entry, (edit entry).isDirectory = entry.isDirectory} {next : Disk Name Content}
    (updated : disk.update privileged path edit kind = some next) (other : List Name) :
    next.get other = if other = path then (disk.get other).map edit else disk.get other := by
  unfold update at updated
  split_ifs at updated
  cases updated
  rw [get_change]
  split_ifs with own
  · rw [own]
  · rfl

/-- A directory is locked if it has entries and does not grant all rights. -/
theorem locked_iff {path : List Name} :
    disk.locked privileged path = true ↔
      (disk.isDirectoryAt path = true ∧ (disk.get path).any (Entry.grants privileged 0o700) = false) ∧
        ∃ other, path ∈ above other ∧ (disk.get other).isSome = true := by
  rw [locked, Bool.and_eq_true, Bool.and_eq_true, Bool.not_eq_true', List.any_eq_true]
  refine and_congr_right fun _ => ?_
  constructor
  · rintro ⟨entry, listed, below⟩
    exact ⟨entry.1, of_decide_eq_true below, Table.isSome_get_iff.mpr ⟨entry, listed, rfl⟩⟩
  · rintro ⟨other, below, present⟩
    obtain ⟨entry, listed, rfl⟩ := Table.isSome_get_iff.mp present
    exact ⟨entry, listed, decide_eq_true below⟩

/-- The locked directories of a removal are those at or below its path. -/
theorem mem_lockedBelow {path other : List Name} :
    other ∈ disk.lockedBelow privileged path ↔
      path <+: other ∧ disk.locked privileged other = true := by
  rw [lockedBelow, List.mem_filter, Bool.and_eq_true, List.isPrefixOf_iff_prefix, List.mem_map]
  refine and_iff_right_of_imp fun ⟨_, isLocked⟩ => ?_
  obtain ⟨mode, modified, found⟩ := isDirectoryAt_iff.mp (locked_iff.mp isLocked).1.1
  obtain ⟨entry, listed, same⟩ := Table.isSome_get_iff.mp
    (show (disk.table.get other).isSome = true by rw [get] at found; rw [found, Option.isSome_some])
  exact ⟨entry, listed, same⟩

/-- What a removal leaves is found as before, and nothing else is. -/
theorem get_leftBy (path other : List Name) :
    (disk.leftBy privileged path).get other =
      if disk.leaves privileged path other then disk.get other else none :=
  Table.get_keep _ _ _

/-- **A removal below which nothing is locked** takes away all that is at or below the path. -/
theorem remove_spec {path : List Name} {now : Int} (present : (disk.get path).isSome = true)
    (free : disk.changeable privileged path = true)
    (unlocked : ∀ other, path <+: other → disk.locked privileged other = false) :
    (disk.remove privileged path now).2 = true ∧
      ∀ other, (disk.remove privileged path now).1.get other =
        if path <+: other then none
        else if other = path.dropLast then (disk.get other).map (Entry.withTime now)
        else disk.get other := by
  have none' : disk.lockedBelow privileged path = [] := by
    rw [List.eq_nil_iff_forall_not_mem]
    intro other listed
    obtain ⟨below, isLocked⟩ := mem_lockedBelow.mp listed
    exact Bool.false_ne_true ((unlocked other below).symm.trans isLocked)
  have left : ∀ other, (disk.leftBy privileged path).get other =
      if path <+: other then none else disk.get other := by
    intro other
    rw [get_leftBy]
    by_cases below : path <+: other
    · rw [if_pos below, if_neg]
      rw [leaves_iff, none']
      simpa using below
    · rw [if_neg below, if_pos (leaves_iff.mpr (.inl below))]
  rw [remove, if_neg (by rw [Option.isNone_iff_eq_none]; exact Option.isSome_iff_ne_none.mp present),
    free, if_neg (by decide), none', List.isEmpty_nil, if_pos rfl]
  refine ⟨rfl, fun other => ?_⟩
  rw [touch, get_change]
  by_cases parent : other = path.dropLast
  · rw [if_pos parent, if_pos parent, ← parent, left]
    split_ifs <;> rfl
  · rw [if_neg parent, if_neg parent, left]

/-- What cannot be removed is left. -/
theorem remove_fails_of_locked {path other : List Name} {now : Int} (below : path <+: other)
    (isLocked : disk.locked privileged other = true) :
    (disk.remove privileged path now).2 = false ∧
      ((disk.remove privileged path now).1.get path).isSome = true := by
  have directory := (locked_iff.mp isLocked).1.1
  have present : (disk.get path).isSome = true := by
    by_cases same : path = other
    · obtain ⟨mode, modified, found⟩ := isDirectoryAt_iff.mp directory
      rw [same, found, Option.isSome_some]
    · obtain ⟨mode, modified, found⟩ := isDirectoryAt_iff.mp directory
      have higher := isDirectoryAt_above (by rw [found, Option.isSome_some])
        (mem_above.mpr ⟨below, same⟩)
      obtain ⟨mode, modified, found⟩ := isDirectoryAt_iff.mp higher
      rw [found, Option.isSome_some]
  have listed := mem_lockedBelow.mpr ⟨below, isLocked⟩
  rw [remove, if_neg (by rw [Option.isNone_iff_eq_none]; exact Option.isSome_iff_ne_none.mp present)]
  split_ifs with fixed empty
  · exact ⟨rfl, present⟩
  · rw [List.isEmpty_iff.mp empty] at listed
    cases listed
  · refine ⟨rfl, ?_⟩
    rw [get_leftBy, if_pos (leaves_iff.mpr (.inr ⟨other, listed, .inr below⟩)), present]

/-- A removal changes nothing elsewhere but the time of the directory it removes an entry of. -/
theorem get_remove_outside {path other : List Name} {now : Int} (outside : ¬ path <+: other) :
    (disk.remove privileged path now).1.get other = disk.get other ∨
      other = path.dropLast ∧ (disk.remove privileged path now).1.get other =
        (disk.get other).map (Entry.withTime now) := by
  have left : (disk.leftBy privileged path).get other = disk.get other := by
    rw [get_leftBy, if_pos (leaves_iff.mpr (.inl outside))]
  unfold remove
  split_ifs
  · exact .inl rfl
  · exact .inl rfl
  · by_cases parent : other = path.dropLast
    · refine .inr ⟨parent, ?_⟩
      rw [touch, get_change, if_pos parent, ← parent, left]
    · refine .inl ?_
      rw [touch, get_change, if_neg parent, left]
  · exact .inl left

end Disk

end Posix
