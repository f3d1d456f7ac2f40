import Kb1Daemon.Migration.Disk
import Kb1Daemon.Registry.Boot

/-! # Copy, verify, clean up

A directory is migrated by copying it, comparing the names and the sizes of the files, and
removing the source. The migration of a directory takes a target that is there for a finished
copy; the migration of a vault's metadata fills in what a target that is there does not have; the
migration of the legacy layout does nothing once the home of the vaults is there.
-/

namespace Kb1Daemon

open JsString

/-- A path as messages show it. -/
def relativePath (path : TreePath) : JsString := Segments.joined slash path

def missingFromCopy (path : TreePath) : MigrationFailure :=
  .verification (VaultFolder.migrationFailed (relativePath path ++ units " missing from copy."))

def sizeMismatch (path : TreePath) (source copy : Nat) : MigrationFailure :=
  .verification (VaultFolder.migrationFailed (relativePath path ++ units " size mismatch (source " ++
    decimal source ++ units ", copy " ++ decimal copy ++ units ")."))

/-- A file of the source has a file of its size at the target. -/
def verifyFile (target : FileTree) (file : TreePath × List UInt8) : Except MigrationFailure Unit :=
  match target.get file.1 with
  | some (.file copied) =>
      if copied.length = file.2.length then .ok ()
      else .error (sizeMismatch file.1 file.2.length copied.length)
  | _ => .error (missingFromCopy file.1)

def verifyFiles (target : FileTree) : List (TreePath × List UInt8) → Except MigrationFailure Unit
  | [] => .ok ()
  | file :: files => (verifyFile target file).bind fun _ => verifyFiles target files

def verifyCopy (source target : FileTree) : Except MigrationFailure Unit :=
  if target.get [] = some .directory then verifyFiles target source.files
  else .error .notDirectory

/-- The steps of a copy, its verification and the cleanup after it. -/
def MigrationDisk.copyVerifyCleanup (disk : MigrationDisk) : Migration :=
  match verifyCopy disk.source (disk.after disk.copy).target with
  | .error failure => ⟨disk.copy, .error failure⟩
  | .ok _ => ⟨disk.copy ++ disk.cleanup, .ok true⟩

def migrateDirectoryCopyVerifyCleanup (disk : MigrationDisk) : Migration :=
  if disk.source.get [] ≠ some .directory then ⟨[], .ok false⟩
  else if (disk.target.get []).isSome then
    match verifyCopy disk.source disk.target with
    | .error failure => ⟨[], .error failure⟩
    | .ok _ => ⟨disk.cleanup, .ok false⟩
  else disk.copyVerifyCleanup

def migrateLegacyVaultLayout (disk : MigrationDisk) : Migration :=
  if disk.home then ⟨[], .ok false⟩
  else if disk.source.get [] ≠ some .directory then ⟨[], .ok false⟩
  else ⟨.makeHome :: disk.copyVerifyCleanup.steps, disk.copyVerifyCleanup.result⟩

section Metadata

/-- How the host decodes the bytes of an identity file, the size it gives a directory, and the
root of the vault. -/
structure MetadataHost where
  decode : List UInt8 → JsString
  directorySize : Nat
  vaultRoot : JsString

variable (host : MetadataHost)

def TreeEntry.size : TreeEntry → Nat
  | .directory => host.directorySize
  | .file bytes => bytes.length

def TreeEntry.isFile : TreeEntry → Bool
  | .directory => false
  | .file _ => true

/-- The path of the identity file. -/
def identityFile : TreePath := [units "vault.json"]

def MetadataHost.legacyIdentity (bytes : List UInt8) : Except JsString VaultIdentity :=
  parseVaultIdentity (host.decode bytes) (host.vaultRoot ++ units "/.kb2/vault.json")

def MetadataHost.identity (bytes : List UInt8) : Except JsString VaultIdentity :=
  parseVaultIdentity (host.decode bytes) (host.vaultRoot ++ units "/.kb1/vault.json")

def MetadataHost.assertSameVaultIdentity (source target : List UInt8) :
    Except MigrationFailure Unit :=
  match host.legacyIdentity source, host.identity target with
  | .error message, _ => .error (.identity message)
  | .ok _, .error message => .error (.identity message)
  | .ok legacy, .ok own =>
      if legacy.id = own.id then .ok ()
      else .error (.verification (VaultFolder.migrationFailed
        (units "vault identity mismatch (source " ++ legacy.id ++ units ", copy " ++ own.id ++
          units ").")))

/-- What is done with the identity file when the target has one. -/
def reconcileIdentity (bytes : List UInt8) : TreeEntry → Except MigrationFailure (List MigrationStep)
  | .directory => .error .isDirectory
  | .file copied => (host.assertSameVaultIdentity bytes copied).map fun _ => []

/-- Something above the path is a file. -/
def blocked (target : FileTree) (path : TreePath) : Bool :=
  (pathsAbove path).any fun above => (target.get above).any TreeEntry.isFile

/-- What is done with a file of the source when the target is there. -/
def reconcileFile (target : FileTree) (file : TreePath × List UInt8) :
    Except MigrationFailure (List MigrationStep) :=
  if blocked target file.1 then .error .notDirectory
  else
    match target.get file.1 with
    | none =>
        .ok (((pathsAbove file.1).filter fun above => (target.get above).isNone).map .makeDirectory ++
          [.copyFile file.1 file.2])
    | some entry =>
        if file.1 = identityFile then reconcileIdentity host file.2 entry
        else if entry.size host = file.2.length then .ok []
        else .error (sizeMismatch file.1 file.2.length (entry.size host))

def reconcileExistingVaultMetadataMigration (disk : MigrationDisk) :
    List (TreePath × List UInt8) → Migration
  | [] => ⟨[], .ok false⟩
  | file :: files =>
      match reconcileFile host disk.target file with
      | .error failure => ⟨[], .error failure⟩
      | .ok steps =>
          let rest := reconcileExistingVaultMetadataMigration (disk.after steps) files
          ⟨steps ++ rest.steps, rest.result⟩

def migrateLegacyVaultMetadata (disk : MigrationDisk) : Migration :=
  if disk.source.get [] ≠ some .directory then ⟨[], .ok false⟩
  else if (disk.target.get []).isNone then migrateDirectoryCopyVerifyCleanup disk
  else
    let reconciled := reconcileExistingVaultMetadataMigration host disk disk.source.files
    match reconciled.result with
    | .error failure => ⟨reconciled.steps, .error failure⟩
    | .ok _ => ⟨reconciled.steps ++ disk.cleanup, .ok false⟩

end Metadata

namespace MigrationDisk

variable {original : FileTree} {disk : MigrationDisk}

/-- An interruption has removed the last entries of the source, and no file is lost. -/
structure Partial (original : FileTree) (disk : MigrationDisk) : Prop where
  source : disk.source.entries <+: original.entries
  preserved : disk.Preserves original.files

/-- Every file is at the target. -/
def AllAtTarget (original : FileTree) (disk : MigrationDisk) : Prop :=
  ∀ file ∈ original.files, disk.target.get file.1 = some (.file file.2)

theorem source_after_cleanup (unique : disk.source.Unique) (count : Nat) :
    (disk.after (disk.cleanup.take count)).source.entries =
      disk.source.entries.take (disk.source.entries.length - count) := by
  obtain ⟨⟨entries⟩, target, home⟩ := disk
  induction entries using List.reverseRecOn generalizing target count with
  | nil => simp [cleanup, after]
  | append_singleton entries last ih =>
      cases count with
      | zero => simp [after]
      | succ count =>
          have keys : (entries.map Prod.fst ++ [last.1]).Nodup := by
            have whole := unique
            rwa [Table.Unique, List.map_append] at whole
          have rest := (List.nodup_append.mp keys).1
          have fresh : ∀ entry ∈ entries, entry.1 ≠ last.1 := fun entry member same =>
            (List.nodup_append.mp keys).2.2 _ (List.mem_map_of_mem member) _ List.mem_cons_self same
          have removed : perform ⟨⟨entries ++ [last]⟩, target, home⟩ (.remove last.1) =
              ⟨⟨entries⟩, target, home⟩ := by
            unfold perform
            dsimp only
            rw [Table.delete, List.filter_append, List.filter_eq_self.mpr]
            · simp
            · intro entry member
              simpa using fresh entry member
          have steps : (cleanup ⟨⟨entries ++ [last]⟩, target, home⟩).take (count + 1) =
              .remove last.1 :: (cleanup ⟨⟨entries⟩, target, home⟩).take count := by
            unfold cleanup
            simp
          have first : after ⟨⟨entries ++ [last]⟩, target, home⟩
              ((cleanup ⟨⟨entries ++ [last]⟩, target, home⟩).take (count + 1)) =
                after ⟨⟨entries⟩, target, home⟩ ((cleanup ⟨⟨entries⟩, target, home⟩).take count) := by
            rw [steps, ← removed]
            rfl
          rw [first, ih count target rest]
          dsimp only
          rw [List.length_append, List.length_singleton, Nat.add_sub_add_right,
            List.take_append_of_le_length (Nat.sub_le _ _)]

/-- What is left of the source after an interruption of the cleanup. -/
theorem prefix_after_cleanup (unique : disk.source.Unique) (count : Nat) :
    (disk.after (disk.cleanup.take count)).source.entries <+: disk.source.entries := by
  rw [source_after_cleanup unique]
  exact List.take_prefix _ _

/-- The cleanup leaves nothing of the source. -/
theorem source_after_whole_cleanup (unique : disk.source.Unique) :
    (disk.after disk.cleanup).source.entries = [] := by
  have whole := source_after_cleanup unique disk.cleanup.length
  rw [List.take_length] at whole
  rw [whole, cleanup, List.length_map, List.length_reverse, Nat.sub_self, List.take_zero]

/-- **Resuming.** A migration is resumable from a disk with an invariant that every interruption
keeps: a run writes until all files are at the target and then cleans up. -/
theorem resumable_of_invariant {migration : MigrationDisk → Migration} (original : FileTree)
    (Invariant : MigrationDisk → Prop) (unique : original.Unique)
    (partly : ∀ disk, Invariant disk → Partial original disk)
    (run : ∀ disk, Invariant disk →
      (migration disk).steps = [] ∧ disk.Finished original.files ∨
        ∃ writes, (migration disk).steps = writes ++ disk.cleanup ∧
          (∀ step ∈ writes, keepsSource step = true) ∧
          (∀ count, Invariant (disk.after (writes.take count))) ∧
          AllAtTarget original (disk.after writes))
    (shrink : ∀ disk source, Invariant disk → AllAtTarget original disk →
      source.entries <+: disk.source.entries → Invariant { disk with source := source })
    (initial : Invariant disk) (same : disk.source = original) : disk.Resumable migration := by
  have single : ∀ disk, Invariant disk → disk.source.Unique := fun disk kept =>
    List.Nodup.sublist ((partly disk kept).source.sublist.map Prod.fst) unique
  have interruptedKeeps : ∀ count, Invariant (disk.interrupted migration count) := by
    intro count
    unfold interrupted
    rcases run disk initial with ⟨none, _⟩ | ⟨writes, steps, keeps, kept, all⟩
    · rw [none, List.take_nil]
      exact initial
    · rw [steps, List.take_append, after_append]
      rcases Nat.lt_or_ge writes.length count with later | early
      · rw [List.take_of_length_le later.le]
        have written := kept writes.length
        rw [List.take_length] at written
        have source := source_after disk keeps
        have own : disk.cleanup = (disk.after writes).cleanup := by
          unfold cleanup
          rw [source]
        rw [own]
        have left := prefix_after_cleanup (single _ written) (count - writes.length)
        rw [after_cleanup]
        exact shrink (disk.after writes) _ written all left
      · rw [Nat.sub_eq_zero_of_le early, List.take_zero]
        exact kept count
  refine ⟨fun count => ?_, fun count => ?_⟩
  · rw [same]
    exact (partly _ (interruptedKeeps count)).preserved
  · rw [same]
    have kept := interruptedKeeps count
    generalize disk.interrupted migration count = middle at kept
    unfold completed
    rcases run middle kept with ⟨none, finished⟩ | ⟨writes, steps, keeps, keptAll, all⟩
    · rw [none]
      exact finished
    · rw [steps, after_append]
      have source := source_after middle keeps
      have own : middle.cleanup = (middle.after writes).cleanup := by
        unfold cleanup
        rw [source]
      rw [own]
      refine ⟨fun file member => ?_, source_after_whole_cleanup ?_⟩
      · have target := after_cleanup (middle.after writes)
          (middle.after writes).cleanup.length
        rw [List.take_length] at target
        rw [target]
        exact all file member
      · rw [source]
        exact single middle kept

end MigrationDisk

end Kb1Daemon
