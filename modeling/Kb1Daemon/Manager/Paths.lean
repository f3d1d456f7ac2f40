import Kb1Daemon.Session.Basic

/-! # Vault paths and their relocation

A move takes one file, or everything under a folder, to another place. The
manager filters its sessions by path prefix and computes the new paths by
slicing; the disk does the same with one rename.
-/

namespace JsString

/-- The separator of vault paths. -/
def slash : CodeUnit := 47

/-- The path starts with the folder and a separator. -/
def isUnder (folder path : JsString) : Bool := (folder ++ [slash]).isPrefixOf path

theorem isUnder_iff {folder path : JsString} :
    isUnder folder path = true ↔ ∃ rest, path = folder ++ slash :: rest := by
  rw [isUnder, List.isPrefixOf_iff_prefix]
  constructor
  · rintro ⟨rest, rfl⟩
    exact ⟨rest, by simp⟩
  · rintro ⟨rest, rfl⟩
    exact ⟨rest, by simp⟩

end JsString

namespace Kb1Daemon

open JsString

/-- A move of one file, or of a folder with everything under it. -/
inductive Move where
  | file (fromPath toPath : JsString)
  | folder (fromFolder toFolder : JsString)
  deriving DecidableEq, Repr

namespace Move

/-- The path is moved. -/
def covers : Move → JsString → Bool
  | .file fromPath _, path => path == fromPath
  | .folder fromFolder _, path => isUnder fromFolder path

/-- Where a moved path goes. -/
def target : Move → JsString → JsString
  | .file _ toPath, _ => toPath
  | .folder fromFolder toFolder, path => toFolder ++ slash :: path.drop (fromFolder.length + 1)

/-- The move back. -/
def reverse : Move → Move
  | .file fromPath toPath => .file toPath fromPath
  | .folder fromFolder toFolder => .folder toFolder fromFolder

/-- Neither end of the move lies in the other. A folder is not moved into
itself, and not to a folder that exists because the moved one is in it. -/
def apart : Move → Bool
  | .file fromPath toPath => fromPath != toPath
  | .folder fromFolder toFolder =>
      !(fromFolder ++ [slash]).isPrefixOf (toFolder ++ [slash]) &&
        !(toFolder ++ [slash]).isPrefixOf (fromFolder ++ [slash])

variable {move : Move} {path : JsString}

theorem covers_target (covered : move.covers path = true) :
    move.reverse.covers (move.target path) = true := by
  cases move with
  | file fromPath toPath => simp [reverse, covers, target]
  | folder fromFolder toFolder => exact isUnder_iff.mpr ⟨_, rfl⟩

theorem target_target (covered : move.covers path = true) :
    move.reverse.target (move.target path) = path := by
  cases move with
  | file fromPath toPath =>
      have same : path = fromPath := by simpa [covers] using covered
      exact same.symm
  | folder fromFolder toFolder =>
      obtain ⟨rest, rfl⟩ := isUnder_iff.mp covered
      simp [reverse, target]

/-- Two moved paths go to different places. -/
theorem target_injective {other : JsString} (covered : move.covers path = true)
    (alike : move.covers other = true) (same : move.target path = move.target other) :
    path = other := by
  rw [← target_target covered, same, target_target alike]

/-- What is moved does not lie where the move leads. -/
theorem not_covers_of_apart (apart : move.apart = true) (covered : move.covers path = true) :
    move.reverse.covers path = false := by
  cases move with
  | file fromPath toPath =>
      have same : path = fromPath := by simpa [covers] using covered
      have different : fromPath ≠ toPath := by simpa [Move.apart] using apart
      simpa [reverse, covers, same] using different
  | folder fromFolder toFolder =>
      rw [Move.apart, Bool.and_eq_true, Bool.not_eq_true', Bool.not_eq_true'] at apart
      by_contra both
      have there : (toFolder ++ [slash]) <+: path :=
        List.isPrefixOf_iff_prefix.mp (by simpa [reverse, covers, isUnder] using both)
      have here : (fromFolder ++ [slash]) <+: path := List.isPrefixOf_iff_prefix.mp covered
      rcases List.prefix_or_prefix_of_prefix here there with inside | outside
      · rw [List.isPrefixOf_iff_prefix.mpr inside] at apart
        exact absurd apart.1 (by decide)
      · rw [List.isPrefixOf_iff_prefix.mpr outside] at apart
        exact absurd apart.2 (by decide)

/-- What has been moved is not moved again. -/
theorem not_covers_target (apart : move.apart = true) (covered : move.covers path = true) :
    move.covers (move.target path) = false := by
  by_contra again
  have away := not_covers_of_apart apart (by simpa using again)
  rw [covers_target covered] at away
  cases away

end Move

/-- Rename the moved file or folder. -/
def Disk.rename (disk : Disk) (move : Move) : Disk :=
  { disk with
    files := fun path =>
      if move.reverse.covers path then disk.files (move.reverse.target path)
      else if move.covers path then none
      else disk.files path }

/-- Nothing is left where the moved files were. -/
theorem Disk.rename_files_of_covers (disk : Disk) {move : Move} {path : JsString}
    (apart : move.apart = true) (covered : move.covers path = true) :
    (disk.rename move).files path = none := by
  rw [Disk.rename]
  simp [Move.not_covers_of_apart apart covered, covered]

/-- Remove a state sidecar; a missing one is ignored. -/
def Disk.removeSidecar (disk : Disk) (path : JsString) : Disk :=
  { disk with sidecars := Function.update disk.sidecars path none }

end Kb1Daemon
