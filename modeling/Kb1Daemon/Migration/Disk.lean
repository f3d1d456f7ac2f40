import Mathlib.Data.List.Induction
import Kb1Daemon.Foundation.JsString
import Kb1Daemon.Foundation.Table

/-! # Trees of files and migrations of them

A tree maps the paths below a root to directories and files. A migration is the list of the steps
it takes from a disk with a source and a target tree, and how it ends; an interruption leaves the
disk after the first steps. A migration is resumable when no interruption loses a file, and it
finishes when it is run again (`MigrationDisk.Resumable`).
-/

namespace Kb1Daemon

/-- The names from a root down. -/
abbrev TreePath := List JsString

inductive TreeEntry where
  | directory
  | file (bytes : List UInt8)
  deriving DecidableEq, Repr

/-- The paths above a path. -/
def pathsAbove (path : TreePath) : List TreePath := (List.range path.length).map path.take

abbrev FileTree := Table TreePath TreeEntry

/-- No path is there twice, and what is above an entry is a directory. -/
structure FileTree.Grown (tree : FileTree) : Prop where
  unique : tree.Unique
  parents : ∀ path name entry, tree.Holds (path ++ [name]) entry → tree.Holds path .directory

/-- The root is a directory and is listed first. -/
def FileTree.Rooted (tree : FileTree) : Prop :=
  ∃ rest, tree.entries = ([], .directory) :: rest

namespace FileTree

/-- The files of a tree, in the order in which they are listed. -/
def files (tree : FileTree) : List (TreePath × List UInt8) :=
  tree.entries.filterMap fun
    | (path, .file bytes) => some (path, bytes)
    | (_, .directory) => none

variable {tree : FileTree} {path above : TreePath} {bytes : List UInt8}

theorem mem_files : (path, bytes) ∈ tree.files ↔ tree.Holds path (.file bytes) := by
  unfold files
  rw [List.mem_filterMap]
  constructor
  · rintro ⟨⟨own, entry⟩, listed, found⟩
    cases entry with
    | directory => cases found
    | file stored =>
        cases found
        exact listed
  · intro held
    exact ⟨_, held, rfl⟩

theorem mem_pathsAbove : above ∈ pathsAbove path ↔ above <+: path ∧ above ≠ path := by
  unfold pathsAbove
  rw [List.mem_map]
  constructor
  · rintro ⟨count, early, rfl⟩
    refine ⟨List.take_prefix _ _, fun same => ?_⟩
    have length := congrArg List.length same
    rw [List.length_take] at length
    have := List.mem_range.mp early
    omega
  · rintro ⟨front, different⟩
    refine ⟨above.length, List.mem_range.mpr ?_, List.prefix_iff_eq_take.mp front |>.symm⟩
    rcases Nat.lt_or_ge above.length path.length with shorter | longer
    · exact shorter
    · exact absurd (front.eq_of_length_le longer) different

/-- What is above an entry of a tree is a directory. -/
theorem Grown.holds_above (grown : tree.Grown) {entry : TreeEntry} (held : tree.Holds path entry)
    (front : above ∈ pathsAbove path) : tree.Holds above .directory := by
  obtain ⟨⟨rest, rfl⟩, different⟩ := mem_pathsAbove.mp front
  clear front
  induction rest using List.reverseRecOn generalizing entry with
  | nil => exact absurd (List.append_nil above).symm different
  | append_singleton rest name ih =>
      have parent := grown.parents (above ++ rest) name entry (by rwa [List.append_assoc])
      by_cases last : rest = []
      · rwa [last, List.append_nil] at parent
      · refine ih parent ?_
        intro same
        exact last (List.append_cancel_left (by rw [List.append_nil]; exact same.symm))

/-- Nothing is above a file of a tree but directories. -/
theorem Grown.not_file_above (grown : tree.Grown) {entry : TreeEntry} (held : tree.Holds path entry)
    (front : above ∈ pathsAbove path) : ¬ tree.Holds above (.file bytes) := by
  intro file
  cases grown.unique.value_eq (grown.holds_above held front) file

end FileTree

/-- A step on the file system. -/
inductive MigrationStep where
  | makeHome
  | makeDirectory (path : TreePath)
  | copyFile (path : TreePath) (bytes : List UInt8)
  | remove (path : TreePath)
  deriving DecidableEq, Repr

/-- The source and the target of a migration, and whether the home of the target is there. -/
structure MigrationDisk where
  source : FileTree
  target : FileTree
  home : Bool
  deriving DecidableEq

inductive MigrationFailure where
  | verification (message : JsString)
  | identity (message : JsString)
  | notDirectory
  | isDirectory
  deriving DecidableEq, Repr

/-- The steps of a migration and how it ends: whether it says that it has migrated. -/
structure Migration where
  steps : List MigrationStep
  result : Except MigrationFailure Bool

namespace MigrationDisk

def perform (disk : MigrationDisk) : MigrationStep → MigrationDisk
  | .makeHome => { disk with home := true }
  | .makeDirectory path => { disk with target := disk.target.set path .directory }
  | .copyFile path bytes => { disk with target := disk.target.set path (.file bytes) }
  | .remove path => { disk with source := disk.source.delete path }

/-- The disk after some steps. -/
def after (disk : MigrationDisk) (steps : List MigrationStep) : MigrationDisk :=
  steps.foldl perform disk

/-- The disk after an interruption. -/
def interrupted (disk : MigrationDisk) (migration : MigrationDisk → Migration) (count : Nat) :
    MigrationDisk :=
  disk.after ((migration disk).steps.take count)

/-- The disk after a run without an interruption. -/
def completed (disk : MigrationDisk) (migration : MigrationDisk → Migration) : MigrationDisk :=
  disk.after (migration disk).steps

/-- The bytes of every file are at the source or at the target. -/
def Preserves (disk : MigrationDisk) (files : List (TreePath × List UInt8)) : Prop :=
  ∀ file ∈ files, disk.source.get file.1 = some (.file file.2) ∨
    disk.target.get file.1 = some (.file file.2)

/-- The bytes of every file are at the target, and the source is gone. -/
structure Finished (disk : MigrationDisk) (files : List (TreePath × List UInt8)) : Prop where
  moved : ∀ file ∈ files, disk.target.get file.1 = some (.file file.2)
  gone : disk.source.entries = []

/-- No interruption loses a file of the source. -/
def LosesNothing (disk : MigrationDisk) (migration : MigrationDisk → Migration) : Prop :=
  ∀ count, (disk.interrupted migration count).Preserves disk.source.files

/-- No interruption loses a file of the source, and the migration finishes when it is run again. -/
structure Resumable (disk : MigrationDisk) (migration : MigrationDisk → Migration) : Prop where
  preserved : disk.LosesNothing migration
  finishes : ∀ count, ((disk.interrupted migration count).completed migration).Finished
    disk.source.files

def copyEntry : TreePath × TreeEntry → MigrationStep
  | (path, .directory) => .makeDirectory path
  | (path, .file bytes) => .copyFile path bytes

/-- `cp`, recursive. -/
def copy (disk : MigrationDisk) : List MigrationStep := disk.source.entries.map copyEntry

/-- `rm`, recursive: what is in a directory before the directory. -/
def cleanup (disk : MigrationDisk) : List MigrationStep :=
  disk.source.entries.reverse.map fun entry => .remove entry.1

/-- What a step writes to the target at a path. -/
def written (path : TreePath) : MigrationStep → Option TreeEntry
  | .makeDirectory own => if own = path then some .directory else none
  | .copyFile own bytes => if own = path then some (.file bytes) else none
  | _ => none

/-- The step removes nothing. -/
def keepsSource : MigrationStep → Bool
  | .remove _ => false
  | _ => true

variable {disk : MigrationDisk} {steps rest : List MigrationStep} {path : TreePath}

theorem after_append : disk.after (steps ++ rest) = (disk.after steps).after rest :=
  List.foldl_append

theorem get_perform (step : MigrationStep) :
    (disk.perform step).target.get path = (written path step).or (disk.target.get path) := by
  cases step with
  | makeHome => rfl
  | makeDirectory own =>
      change (disk.target.set own .directory).get path = Option.or (if own = path then _ else _) _
      rw [Table.get_set]
      by_cases same : own = path
      · rw [if_pos same, if_pos same.symm, Option.some_or]
      · rw [if_neg same, if_neg (Ne.symm same), Option.none_or]
  | copyFile own bytes =>
      change (disk.target.set own (.file bytes)).get path = Option.or (if own = path then _ else _) _
      rw [Table.get_set]
      by_cases same : own = path
      · rw [if_pos same, if_pos same.symm, Option.some_or]
      · rw [if_neg same, if_neg (Ne.symm same), Option.none_or]
  | remove own => rfl

/-- A path that no step writes keeps its entry. -/
theorem get_after_of_not_written (unwritten : ∀ step ∈ steps, written path step = none) :
    (disk.after steps).target.get path = disk.target.get path := by
  induction steps generalizing disk with
  | nil => rfl
  | cons step steps ih =>
      change ((disk.perform step).after steps).target.get path = _
      rw [ih fun later member => unwritten later (List.mem_cons_of_mem _ member), get_perform,
        unwritten step List.mem_cons_self, Option.none_or]

/-- A path at which every step that writes it writes the same has what they write. -/
theorem get_after_of_written {entry : TreeEntry}
    (same : ∀ step ∈ steps, written path step = none ∨ written path step = some entry)
    (some_ : disk.target.get path = some entry ∨ ∃ step ∈ steps, written path step = some entry) :
    (disk.after steps).target.get path = some entry := by
  induction steps generalizing disk with
  | nil =>
      rcases some_ with already | ⟨step, member, _⟩
      · exact already
      · cases member
  | cons step steps ih =>
      refine ih (fun later member => same later (List.mem_cons_of_mem _ member)) ?_
      rcases same step List.mem_cons_self with unwritten | now
      · rw [get_perform, unwritten, Option.none_or]
        rcases some_ with already | ⟨other, member, writes⟩
        · exact .inl already
        · rcases List.mem_cons.mp member with rfl | later
          · rw [unwritten] at writes
            cases writes
          · exact .inr ⟨other, later, writes⟩
      · rw [get_perform, now, Option.some_or]
        exact .inl rfl

theorem source_after (disk : MigrationDisk) (keeps : ∀ step ∈ steps, keepsSource step = true) :
    (disk.after steps).source = disk.source := by
  induction steps generalizing disk with
  | nil => rfl
  | cons step steps ih =>
      refine (ih (disk.perform step) fun later member =>
        keeps later (List.mem_cons_of_mem _ member)).trans ?_
      have kept := keeps step List.mem_cons_self
      cases step with
      | remove path => cases kept
      | makeHome => rfl
      | makeDirectory path => rfl
      | copyFile path bytes => rfl

theorem written_copyEntry (entry : TreePath × TreeEntry) :
    written path (copyEntry entry) = if entry.1 = path then some entry.2 else none := by
  obtain ⟨own, stored⟩ := entry
  cases stored with
  | directory => rfl
  | file bytes => rfl

theorem keepsSource_of_mem_copy : ∀ step ∈ disk.copy, keepsSource step = true := by
  intro step member
  obtain ⟨⟨path, entry⟩, _, rfl⟩ := List.mem_map.mp member
  cases entry with
  | directory => rfl
  | file bytes => rfl

/-- At a path of the source a copy writes the entry of the source or nothing. -/
theorem written_of_mem_copy (unique : disk.source.Unique) {entry : TreeEntry}
    (held : disk.source.Holds path entry) :
    ∀ step ∈ disk.copy, written path step = none ∨ written path step = some entry := by
  intro step member
  obtain ⟨⟨own, stored⟩, listed, rfl⟩ := List.mem_map.mp member
  rw [written_copyEntry]
  split
  · rename_i same
    subst same
    exact .inr (congrArg some (unique.value_eq listed held))
  · exact .inl rfl

/-- After a copy the target has the entries of the source. -/
theorem get_after_copy (unique : disk.source.Unique) {entry : TreeEntry}
    (held : disk.source.Holds path entry) : (disk.after disk.copy).target.get path = some entry := by
  refine get_after_of_written (written_of_mem_copy unique held) (.inr ⟨_, List.mem_map_of_mem held, ?_⟩)
  rw [written_copyEntry, if_pos rfl]

/-- Removals change the source only. -/
theorem after_cleanup (disk : MigrationDisk) (count : Nat) :
    disk.after (disk.cleanup.take count) =
      { disk with source := (disk.after (disk.cleanup.take count)).source } := by
  unfold cleanup
  rw [← List.map_take]
  generalize disk.source.entries.reverse.take count = removed
  induction removed generalizing disk with
  | nil => rfl
  | cons entry removed ih => exact ih (disk.perform (.remove entry.1))

end MigrationDisk

end Kb1Daemon
