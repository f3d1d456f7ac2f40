import Kb1Daemon.Migration.Copy

/-! # Interrupted migrations

The migration of a directory is resumable only when there is nothing left to copy, and that of
the legacy layout never is: both take a target that an interruption has left for a finished copy
or refuse it. The migration of a vault's metadata is resumable when the target has no other file
at, or above, the path of a file of the source and the identity can be read
(`migrations_resumable_iff`).
-/

namespace Kb1Daemon

open JsString MigrationDisk

variable {original : FileTree} {disk : MigrationDisk} {target : FileTree}

theorem verifyFiles_ok {files : List (TreePath × List UInt8)} :
    verifyFiles target files = .ok () ↔
      ∀ file ∈ files, ∃ copied, target.get file.1 = some (.file copied) ∧
        copied.length = file.2.length := by
  induction files with
  | nil => simp [verifyFiles]
  | cons file files ih =>
      have first : verifyFile target file = .ok () ↔
          ∃ copied, target.get file.1 = some (.file copied) ∧ copied.length = file.2.length := by
        unfold verifyFile
        constructor
        · intro fine
          split at fine
          · rename_i copied found
            split at fine
            · rename_i same
              exact ⟨copied, found, same⟩
            · cases fine
          · cases fine
        · rintro ⟨copied, found, same⟩
          rw [found]
          exact if_pos same
      rw [List.forall_mem_cons, ← ih, ← first, verifyFiles]
      cases verifyFile target file with
      | error failure => simp [Except.bind]
      | ok => simp [Except.bind]

theorem verifyCopy_ok {source : FileTree} :
    verifyCopy source target = .ok () ↔ target.get [] = some .directory ∧
      ∀ file ∈ source.files, ∃ copied, target.get file.1 = some (.file copied) ∧
        copied.length = file.2.length := by
  unfold verifyCopy
  split
  · rename_i root
    rw [verifyFiles_ok]
    simp [root]
  · rename_i other
    simp [other]

/-- A copy to a target that is not there is verified. -/
theorem copyVerifyCleanup_steps (unique : disk.source.Unique) (rooted : disk.source.Rooted) :
    disk.copyVerifyCleanup.steps = disk.copy ++ disk.cleanup := by
  have fine : verifyCopy disk.source (disk.after disk.copy).target = .ok () := by
    rw [verifyCopy_ok]
    constructor
    · obtain ⟨rest, entries⟩ := rooted
      refine get_after_copy unique ?_
      rw [Table.Holds, entries]
      exact List.mem_cons_self
    · intro file member
      exact ⟨file.2, get_after_copy unique (FileTree.mem_files.mp member), rfl⟩
  unfold copyVerifyCleanup
  rw [fine]

theorem FileTree.Rooted.get_eq {source : FileTree} (rooted : source.Rooted) :
    source.get [] = some .directory := by
  obtain ⟨rest, entries⟩ := rooted
  unfold Table.get
  rw [entries]
  rfl

/-- What an interruption leaves of a rooted source is empty or rooted. -/
theorem FileTree.Rooted.of_front {source left : FileTree} (rooted : source.Rooted)
    (front : left.entries <+: source.entries) : left.entries = [] ∨ left.Rooted := by
  obtain ⟨rest, entries⟩ := rooted
  rw [entries] at front
  rcases List.prefix_cons_iff.mp front with none | ⟨kept, same, _⟩
  · exact .inl none
  · exact .inr ⟨kept, same⟩

/-- Files of what is left of the source are files of the source. -/
theorem files_subset_of_front {source left : FileTree} (front : left.entries <+: source.entries) :
    left.files ⊆ source.files := by
  intro file member
  exact FileTree.mem_files.mpr (front.subset (FileTree.mem_files.mp member))

/-- With nothing left of the source, all files are at the target. -/
theorem allAtTarget_of_preserves (preserved : disk.Preserves original.files)
    (gone : disk.source.entries = []) : AllAtTarget original disk := by
  intro file member
  rcases preserved file member with source | target
  · rw [Table.get, gone] at source
    cases source
  · exact target

/-- Files that are left at the source or are at the target are not lost. -/
theorem preserves_of_allAtTarget (all : AllAtTarget original disk) : disk.Preserves original.files :=
  fun file member => .inr (all file member)

section Directory

/-- The target is a directory with every file, or there is no target and no file. -/
def Copied (original : FileTree) (disk : MigrationDisk) : Prop :=
  disk.target.get [] = some .directory ∧ AllAtTarget original disk ∨
    disk.target.get [] = none ∧ original.files = []

/-- With nothing left to copy, the migration of a directory is resumable. -/
theorem resumable_directory (grown : disk.source.Grown) (rooted : disk.source.Rooted)
    (copied : Copied disk.source disk) : disk.Resumable migrateDirectoryCopyVerifyCleanup := by
  refine resumable_of_invariant disk.source
    (fun middle => middle.source.entries <+: disk.source.entries ∧ Copied disk.source middle)
    grown.unique ?_ ?_ ?_ ⟨List.prefix_refl _, copied⟩ rfl
  · rintro middle ⟨front, copied⟩
    refine ⟨front, ?_⟩
    rcases copied with ⟨_, all⟩ | ⟨_, none⟩
    · exact preserves_of_allAtTarget all
    · rw [none]
      exact fun file member => absurd member List.not_mem_nil
  · rintro middle ⟨front, copied⟩
    have all : Copied disk.source middle → AllAtTarget disk.source middle := by
      rintro (⟨_, all⟩ | ⟨_, none⟩)
      · exact all
      · intro file member
        rw [none] at member
        cases member
    rcases rooted.of_front front with gone | middleRooted
    · refine .inl ⟨?_, all copied, gone⟩
      unfold migrateDirectoryCopyVerifyCleanup
      rw [if_pos]
      rw [Table.get, gone]
      exact nofun
    · have unique : middle.source.Unique := grown.unique.sublist (front.sublist.map Prod.fst)
      unfold migrateDirectoryCopyVerifyCleanup
      rw [if_neg (not_not.mpr middleRooted.get_eq)]
      rcases copied with ⟨root, there⟩ | ⟨absent, none⟩
      · have fine : verifyCopy middle.source middle.target = .ok () := by
          refine verifyCopy_ok.mpr ⟨root, fun file member => ⟨file.2, ?_, rfl⟩⟩
          exact there file (files_subset_of_front front member)
        rw [root, fine]
        refine .inr ⟨[], rfl, fun step member => absurd member List.not_mem_nil, fun count => ?_, there⟩
        rw [List.take_nil]
        exact ⟨front, .inl ⟨root, there⟩⟩
      · rw [absent]
        refine .inr ⟨middle.copy, copyVerifyCleanup_steps unique middleRooted,
          keepsSource_of_mem_copy, fun count => ⟨?_, ?_⟩, ?_⟩
        · rw [source_after _ fun step member => keepsSource_of_mem_copy step (List.mem_of_mem_take member)]
          exact front
        · obtain ⟨rest, entries⟩ := middleRooted
          cases count with
          | zero =>
              rw [List.take_zero]
              exact .inr ⟨absent, none⟩
          | succ count =>
              refine .inl ⟨?_, fun file member => ?_⟩
              · have held : middle.source.Holds [] .directory := by
                  rw [Table.Holds, entries]
                  exact List.mem_cons_self
                refine get_after_of_written (fun step member =>
                  written_of_mem_copy unique held step (List.mem_of_mem_take member)) (.inr ?_)
                refine ⟨.makeDirectory [], ?_, rfl⟩
                rw [copy, entries]
                exact List.mem_cons_self
              · rw [none] at member
                cases member
        · intro file member
          rw [none] at member
          cases member
  · rintro middle source ⟨front, copied⟩ _ shorter
    exact ⟨shorter.trans front, copied⟩

/-- A migration that took no step and left a source has not finished. -/
theorem not_finished_of_rooted {files : List (TreePath × List UInt8)} (rooted : disk.source.Rooted) :
    ¬ disk.Finished files := by
  rintro ⟨_, gone⟩
  obtain ⟨rest, entries⟩ := rooted
  rw [gone] at entries
  cases entries

/-- A tree without a root is empty. -/
theorem FileTree.Grown.get_eq_none (grown : target.Grown) (absent : target.get [] = none)
    (path : TreePath) : target.get path = none := by
  cases found : target.get path with
  | none => rfl
  | some entry =>
      have held := Table.holds_of_get found
      by_cases root : path = []
      · rw [root, absent] at found
        cases found
      · have above : [] ∈ pathsAbove path :=
          FileTree.mem_pathsAbove.mpr ⟨List.nil_prefix, Ne.symm root⟩
        exact absurd (grown.holds_above held above) (Table.not_holds_of_get absent _)

theorem interrupted_zero (migration : MigrationDisk → Migration) :
    disk.interrupted migration 0 = disk := rfl

/-- **A directory.** -/
theorem resumable_directory_iff (grown : disk.source.Grown) (rooted : disk.source.Rooted)
    (targetGrown : disk.target.Grown) :
    disk.Resumable migrateDirectoryCopyVerifyCleanup ↔ Copied disk.source disk := by
  refine ⟨fun resumable => ?_, resumable_directory grown rooted⟩
  have whole := resumable.finishes 0
  rw [interrupted_zero, completed, migrateDirectoryCopyVerifyCleanup,
    if_neg (not_not.mpr rooted.get_eq)] at whole
  cases there : disk.target.get [] with
  | some root =>
      rw [there] at whole
      cases verified : verifyCopy disk.source disk.target with
      | error failure =>
          rw [verified] at whole
          exact absurd whole (not_finished_of_rooted rooted)
      | ok verifiedCopy =>
          rw [verified] at whole
          have kept := after_cleanup disk disk.cleanup.length
          rw [List.take_length] at kept
          refine .inl ⟨(verifyCopy_ok.mp verified).1 ▸ there ▸ rfl, fun file member => ?_⟩
          have moved := whole.moved file member
          change (disk.after disk.cleanup).target.get file.1 = _ at moved
          rwa [kept] at moved
  | none =>
      refine .inr ⟨there, ?_⟩
      by_contra some_
      obtain ⟨file, member⟩ := List.exists_mem_of_ne_nil _ some_
      have held := FileTree.mem_files.mp member
      have again := resumable.finishes 1
      obtain ⟨rest, entries⟩ := id rooted
      have first : disk.interrupted migrateDirectoryCopyVerifyCleanup 1 =
          disk.perform (.makeDirectory []) := by
        rw [interrupted, migrateDirectoryCopyVerifyCleanup, if_neg (not_not.mpr rooted.get_eq), there]
        change disk.after (disk.copyVerifyCleanup.steps.take 1) = _
        rw [copyVerifyCleanup_steps grown.unique rooted, copy, entries]
        rfl
      rw [first] at again
      have root : (disk.perform (.makeDirectory [])).target.get [] = some .directory := by
        rw [get_perform]
        rfl
      have missing : (disk.perform (.makeDirectory [])).target.get file.1 = none := by
        rw [get_perform, targetGrown.get_eq_none there, Option.or_none]
        refine if_neg fun same => ?_
        rw [← same] at held
        cases grown.unique.value_eq held (Table.holds_of_get rooted.get_eq)
      have unfinished : (migrateDirectoryCopyVerifyCleanup (disk.perform (.makeDirectory []))).steps =
          [] := by
        unfold migrateDirectoryCopyVerifyCleanup
        rw [if_neg (not_not.mpr (show (disk.perform (.makeDirectory [])).source.get [] = _ from
          rooted.get_eq)), root]
        dsimp only [Option.isSome_some, if_true]
        cases verified : verifyCopy (disk.perform (.makeDirectory [])).source
            (disk.perform (.makeDirectory [])).target with
        | error failure => rfl
        | ok verifiedCopy =>
            obtain ⟨copied, found, _⟩ := (verifyCopy_ok.mp verified).2 file member
            rw [missing] at found
            cases found
      rw [completed, unfinished] at again
      exact @not_finished_of_rooted (disk.perform (.makeDirectory [])) _ rooted again

end Directory

section Layout

/-- Writing all files and then cleaning up loses nothing at any moment. -/
theorem preserves_take (unique : disk.source.Unique) {writes : List MigrationStep}
    (keeps : ∀ step ∈ writes, keepsSource step = true)
    (all : AllAtTarget disk.source (disk.after writes)) (count : Nat) :
    (disk.after ((writes ++ disk.cleanup).take count)).Preserves disk.source.files := by
  rw [List.take_append, after_append]
  have source := source_after disk keeps
  rcases Nat.lt_or_ge writes.length count with later | early
  · have own : disk.cleanup = (disk.after writes).cleanup := by
      unfold cleanup
      rw [source]
    rw [List.take_of_length_le later.le, own, after_cleanup]
    exact preserves_of_allAtTarget all
  · rw [Nat.sub_eq_zero_of_le early, List.take_zero]
    intro file member
    refine .inl ?_
    change (disk.after (writes.take count)).source.get file.1 = _
    rw [source_after disk fun step member => keeps step (List.mem_of_mem_take member)]
    exact unique.get_eq (FileTree.mem_files.mp member)

/-- The migration of the legacy layout loses nothing. -/
theorem losesNothing_layout (unique : disk.source.Unique) :
    disk.LosesNothing migrateLegacyVaultLayout := by
  intro count
  have still : disk.Preserves disk.source.files := fun file member =>
    .inl (unique.get_eq (FileTree.mem_files.mp member))
  unfold interrupted migrateLegacyVaultLayout
  split
  · rw [List.take_nil]
    exact still
  · split
    · rw [List.take_nil]
      exact still
    · cases count with
      | zero => exact still
      | succ count =>
          have all : AllAtTarget disk.source ((disk.perform .makeHome).after disk.copy) :=
            fun file member => @get_after_copy (disk.perform .makeHome) _ unique _
              (FileTree.mem_files.mp member)
          change ((disk.perform .makeHome).after (disk.copyVerifyCleanup.steps.take count)).Preserves _
          unfold copyVerifyCleanup
          split
          · intro file member
            refine .inl ?_
            rw [source_after _ fun step listed => keepsSource_of_mem_copy step (List.mem_of_mem_take listed)]
            exact unique.get_eq (FileTree.mem_files.mp member)
          · exact @preserves_take (disk.perform .makeHome) unique _ keepsSource_of_mem_copy all count

/-- **The legacy layout.** An interruption after the home is made is never resumed. -/
theorem not_resumable_layout (rooted : disk.source.Rooted) :
    ¬ disk.Resumable migrateLegacyVaultLayout := by
  intro resumable
  cases home : disk.home with
  | true =>
      have whole := resumable.finishes 0
      rw [interrupted_zero, completed, migrateLegacyVaultLayout, if_pos home] at whole
      exact not_finished_of_rooted rooted whole
  | false =>
      have again := resumable.finishes 1
      have first : disk.interrupted migrateLegacyVaultLayout 1 = disk.perform .makeHome := by
        rw [interrupted, migrateLegacyVaultLayout, home, if_neg Bool.false_ne_true,
          if_neg (not_not.mpr rooted.get_eq)]
        rfl
      rw [first, completed, migrateLegacyVaultLayout, if_pos (show (disk.perform .makeHome).home = true
        from rfl)] at again
      exact @not_finished_of_rooted (disk.perform .makeHome) _ rooted again

end Layout

section Metadata

variable {host : MetadataHost}

/-- A file of the source can be at the target: nothing above it is a file, and what is there is
the same file or nothing. -/
structure Fits (target : FileTree) (file : TreePath × List UInt8) : Prop where
  above : ∀ above ∈ pathsAbove file.1, ∀ bytes, target.get above ≠ some (.file bytes)
  own : target.get file.1 = none ∨ target.get file.1 = some (.file file.2)

/-- An identity file can be read, as the legacy one and as its copy. -/
def Readable (host : MetadataHost) (file : TreePath × List UInt8) : Prop :=
  file.1 = identityFile → ∃ identity, host.legacyIdentity file.2 = .ok identity

/-- A step that copies a file of a tree, or makes a directory where the tree has no file. -/
def Harmless (original : FileTree) (step : MigrationStep) : Prop :=
  keepsSource step = true ∧ ∀ path entry, written path step = some entry →
    original.Holds path entry ∨ entry = .directory ∧ ∀ bytes, ¬ original.Holds path (.file bytes)

/-- A harmless step keeps the files fitting, and those that are at the target there. -/
theorem Fits.perform (grown : original.Grown) {file : TreePath × List UInt8}
    (member : file ∈ original.files) {step : MigrationStep} (harmless : Harmless original step)
    (fits : Fits disk.target file) : Fits (disk.perform step).target file := by
  have held := FileTree.mem_files.mp member
  refine ⟨fun above front bytes => ?_, ?_⟩
  · rw [get_perform]
    cases writes : written above step with
    | none => exact fits.above above front bytes
    | some entry =>
        rintro same
        obtain rfl := Option.some.inj same
        rcases harmless.2 above _ writes with copied | ⟨directory, _⟩
        · exact grown.not_file_above held front copied
        · cases directory
  · rw [get_perform]
    cases writes : written file.1 step with
    | none => exact fits.own
    | some entry =>
        rcases harmless.2 file.1 entry writes with copied | ⟨_, free⟩
        · rw [grown.unique.value_eq copied held]
          exact .inr rfl
        · exact absurd held (free _)

theorem get_perform_file (grown : original.Grown) {file : TreePath × List UInt8}
    (member : file ∈ original.files) {step : MigrationStep} (harmless : Harmless original step)
    (there : disk.target.get file.1 = some (.file file.2)) :
    (disk.perform step).target.get file.1 = some (.file file.2) := by
  have held := FileTree.mem_files.mp member
  rw [get_perform]
  cases writes : written file.1 step with
  | none => exact there
  | some entry =>
      rcases harmless.2 file.1 entry writes with copied | ⟨_, free⟩
      · rw [grown.unique.value_eq copied held]
        rfl
      · exact absurd held (free _)

/-- What the migration of metadata keeps. -/
structure Mending (original : FileTree) (disk : MigrationDisk) : Prop where
  source : disk.source.entries <+: original.entries
  preserved : disk.Preserves original.files
  fits : ∀ file ∈ original.files, Fits disk.target file
  root : disk.target.get [] = none → ∀ path, disk.target.get path = none

/-- Harmless steps keep it. -/
theorem Mending.after (grown : original.Grown) {steps : List MigrationStep}
    (harmless : ∀ step ∈ steps, Harmless original step)
    (first : ∀ step ∈ steps.head?, disk.target.get [] = none → step = .makeDirectory [])
    (mending : Mending original disk) : Mending original (disk.after steps) := by
  induction steps generalizing disk with
  | nil => exact mending
  | cons step steps ih =>
      have own := harmless step List.mem_cons_self
      have rootWritten : (disk.perform step).target.get [] ≠ none := by
        rw [get_perform]
        cases there : disk.target.get [] with
        | some root => cases written [] step <;> nofun
        | none =>
            rw [first step rfl there]
            nofun
      refine ih (fun later member => harmless later (List.mem_cons_of_mem _ member))
        (fun _ _ absent => absurd absent rootWritten) ⟨?_, fun file member => ?_, fun file member => ?_,
          fun absent => absurd absent rootWritten⟩
      · have kept : (disk.perform step).source = disk.source :=
          @source_after [step] disk (by simpa using own.1)
        rw [kept]
        exact mending.source
      · have kept : (disk.perform step).source = disk.source :=
          @source_after [step] disk (by simpa using own.1)
        rcases mending.preserved file member with source | target
        · exact .inl (by rwa [kept])
        · exact .inr (get_perform_file grown member own target)
      · exact (mending.fits file member).perform grown member own

theorem harmless_of_mem_copy (front : disk.source.entries <+: original.entries) :
    ∀ step ∈ disk.copy, Harmless original step := by
  intro step member
  refine ⟨keepsSource_of_mem_copy step member, fun path entry writes => .inl ?_⟩
  obtain ⟨own, listed, rfl⟩ := List.mem_map.mp member
  rw [written_copyEntry] at writes
  split at writes
  · rename_i same
    obtain rfl := Option.some.inj writes
    rw [← same]
    exact front.subset listed
  · cases writes

/-- Whether an identity can be read does not depend on where its file is. -/
theorem MetadataHost.identity_of_legacyIdentity {bytes : List UInt8} {identity : VaultIdentity}
    (read : host.legacyIdentity bytes = .ok identity) : host.identity bytes = .ok identity := by
  unfold legacyIdentity at read
  unfold MetadataHost.identity
  exact parseVaultIdentity_file read _

/-- What is done with a file that is there. -/
theorem reconcileFile_there {file : TreePath × List UInt8} {entry : TreeEntry}
    (open_ : blocked target file.1 = false) (there : target.get file.1 = some entry) :
    reconcileFile host target file =
      if file.1 = identityFile then reconcileIdentity host file.2 entry
      else if entry.size host = file.2.length then .ok []
      else .error (sizeMismatch file.1 file.2.length (entry.size host)) := by
  rw [reconcileFile, open_, if_neg Bool.false_ne_true, there]

/-- A file below a file is refused. -/
theorem open_of_reconcileFile {file : TreePath × List UInt8} {steps : List MigrationStep}
    (reconciled : reconcileFile host target file = .ok steps) : blocked target file.1 = false := by
  cases shut : blocked target file.1 with
  | false => rfl
  | true =>
      rw [reconcileFile, if_pos shut] at reconciled
      cases reconciled

/-- A file that fits is reconciled: by harmless steps it gets to the target. -/
theorem reconcileFile_of_fits (grown : original.Grown) {file : TreePath × List UInt8}
    (member : file ∈ original.files) (readable : Readable host file) (fits : Fits disk.target file) :
    ∃ steps, reconcileFile host disk.target file = .ok steps ∧
      (∀ step ∈ steps, Harmless original step) ∧
        (disk.after steps).target.get file.1 = some (.file file.2) := by
  have held := FileTree.mem_files.mp member
  have open_ : blocked disk.target file.1 = false := by
    unfold blocked
    rw [List.any_eq_false]
    intro above front file_
    cases found : disk.target.get above with
    | none =>
        rw [found] at file_
        cases file_
    | some entry =>
        rw [found] at file_
        cases entry with
        | directory => cases file_
        | file bytes => exact fits.above above front bytes found
  rcases fits.own with absent | present
  · rw [reconcileFile, open_, if_neg Bool.false_ne_true, absent]
    refine ⟨_, rfl, fun step listed => ?_, ?_⟩
    · rcases List.mem_append.mp listed with made | copied
      · obtain ⟨above, selected, rfl⟩ := List.mem_map.mp made
        have front := (List.mem_filter.mp selected).1
        refine ⟨rfl, fun path entry writes => .inr ?_⟩
        change (if above = path then _ else _) = _ at writes
        split at writes
        · rename_i same
          subst same
          exact ⟨(Option.some.inj writes).symm, fun bytes => grown.not_file_above held front⟩
        · cases writes
      · obtain rfl := List.mem_singleton.mp copied
        refine ⟨rfl, fun path entry writes => .inl ?_⟩
        change (if file.1 = path then _ else _) = _ at writes
        split at writes
        · rename_i same
          rwa [← same, ← Option.some.inj writes]
        · cases writes
    · rw [after_append]
      change (perform _ (.copyFile file.1 file.2)).target.get file.1 = _
      rw [get_perform]
      change Option.or (if file.1 = file.1 then _ else _) _ = _
      rw [if_pos rfl]
      rfl
  · have nothing : ∀ step ∈ ([] : List MigrationStep), Harmless original step :=
      fun step listed => absurd listed List.not_mem_nil
    refine ⟨[], ?_, nothing, present⟩
    rw [reconcileFile_there open_ present]
    by_cases identity : file.1 = identityFile
    · obtain ⟨read, legacy⟩ := readable identity
      rw [if_pos identity, reconcileIdentity]
      have same : host.assertSameVaultIdentity file.2 file.2 = .ok () := by
        rw [MetadataHost.assertSameVaultIdentity, legacy, MetadataHost.identity_of_legacyIdentity legacy]
        exact if_pos rfl
      rw [same]
      rfl
    · rw [if_neg identity]
      exact if_pos rfl

/-- Files that fit are all reconciled. -/
theorem reconcile_of_fits (grown : original.Grown) {files : List (TreePath × List UInt8)}
    (listed : files ⊆ original.files) (readable : ∀ file ∈ files, Readable host file)
    (fits : ∀ file ∈ original.files, Fits disk.target file) :
    (reconcileExistingVaultMetadataMigration host disk files).result = .ok false ∧
      (∀ step ∈ (reconcileExistingVaultMetadataMigration host disk files).steps,
        Harmless original step) ∧
      ∀ file ∈ files, (disk.after
        (reconcileExistingVaultMetadataMigration host disk files).steps).target.get file.1 =
          some (.file file.2) := by
  have keepFits : ∀ (steps : List MigrationStep) (disk : MigrationDisk),
      (∀ step ∈ steps, Harmless original step) → (∀ file ∈ original.files, Fits disk.target file) →
        ∀ file ∈ original.files, Fits (disk.after steps).target file := by
    intro steps
    induction steps with
    | nil => exact fun _ _ fits => fits
    | cons step steps ih =>
        intro disk harmless fits
        exact ih (disk.perform step) (fun later member => harmless later (List.mem_cons_of_mem _ member))
          fun file member => (fits file member).perform grown member
            (harmless step List.mem_cons_self)
  have keepFile : ∀ (steps : List MigrationStep) (disk : MigrationDisk) (file : TreePath × List UInt8),
      file ∈ original.files → (∀ step ∈ steps, Harmless original step) →
        disk.target.get file.1 = some (.file file.2) →
          (disk.after steps).target.get file.1 = some (.file file.2) := by
    intro steps
    induction steps with
    | nil => exact fun _ _ _ _ there => there
    | cons step steps ih =>
        intro disk file member harmless there
        exact ih (disk.perform step) file member
          (fun later listed => harmless later (List.mem_cons_of_mem _ listed))
          (get_perform_file grown member (harmless step List.mem_cons_self) there)
  induction files generalizing disk with
  | nil => exact ⟨rfl, fun step member => absurd member List.not_mem_nil,
      fun file member => absurd member List.not_mem_nil⟩
  | cons file files ih =>
      have member := listed List.mem_cons_self
      obtain ⟨steps, reconciled, harmless, there⟩ := reconcileFile_of_fits grown member
        (readable file List.mem_cons_self) (fits file member)
      obtain ⟨fine, later, rest⟩ := ih (fun own own_ => listed (List.mem_cons_of_mem _ own_))
        (fun own own_ => readable own (List.mem_cons_of_mem _ own_))
        (keepFits steps disk harmless fits)
      rw [reconcileExistingVaultMetadataMigration, reconciled]
      refine ⟨fine, fun step stepped => ?_, fun own own_ => ?_⟩
      · rcases List.mem_append.mp stepped with first | second
        · exact harmless step first
        · exact later step second
      · dsimp only
        rw [after_append]
        rcases List.mem_cons.mp own_ with rfl | tail
        · exact keepFile _ _ own member later there
        · exact rest own tail

/-- **Metadata, when it fits.** -/
theorem resumable_metadata (grown : disk.source.Grown) (rooted : disk.source.Rooted)
    (targetGrown : disk.target.Grown)
    (fits : ∀ file ∈ disk.source.files, Fits disk.target file ∧ Readable host file) :
    disk.Resumable (migrateLegacyVaultMetadata host) := by
  have initial : Mending disk.source disk :=
    ⟨List.prefix_refl _, fun file member => .inl (grown.unique.get_eq (FileTree.mem_files.mp member)),
      fun file member => (fits file member).1, targetGrown.get_eq_none⟩
  refine resumable_of_invariant disk.source (Mending disk.source) grown.unique
    (fun middle mending => ⟨mending.source, mending.preserved⟩) ?_ ?_ initial rfl
  · intro middle mending
    rcases rooted.of_front mending.source with gone | middleRooted
    · refine .inl ⟨?_, allAtTarget_of_preserves mending.preserved gone, gone⟩
      unfold migrateLegacyVaultMetadata
      rw [if_pos]
      rw [Table.get, gone]
      exact nofun
    · have unique : middle.source.Unique := grown.unique.sublist (mending.source.sublist.map Prod.fst)
      have moves : ∀ writes : List MigrationStep, (∀ step ∈ writes, Harmless disk.source step) →
          (∀ file ∈ middle.source.files, (middle.after writes).target.get file.1 = some (.file file.2)) →
            Mending disk.source (middle.after writes) → AllAtTarget disk.source (middle.after writes) := by
        intro writes harmless there after file member
        rcases after.preserved file member with source | target
        · rw [source_after middle fun step listed => (harmless step listed).1] at source
          exact there file (FileTree.mem_files.mpr (Table.holds_of_get source))
        · exact target
      unfold migrateLegacyVaultMetadata
      rw [if_neg (not_not.mpr middleRooted.get_eq)]
      cases root : middle.target.get [] with
      | none =>
          have harmless := harmless_of_mem_copy mending.source
          have head : ∀ count, ∀ step ∈ (middle.copy.take count).head?,
              middle.target.get [] = none → step = .makeDirectory [] := by
            obtain ⟨rest, entries⟩ := middleRooted
            intro count step first _
            rw [copy, entries] at first
            cases count with
            | zero => cases first
            | succ count => exact (Option.some.inj first).symm
          have after : ∀ count, Mending disk.source (middle.after (middle.copy.take count)) :=
            fun count => mending.after grown
              (fun step listed => harmless step (List.mem_of_mem_take listed)) (head count)
          refine .inr ⟨middle.copy, ?_, fun step listed => (harmless step listed).1, after, ?_⟩
          · rw [Option.isNone_none, if_pos rfl, migrateDirectoryCopyVerifyCleanup,
              if_neg (not_not.mpr middleRooted.get_eq), root]
            exact copyVerifyCleanup_steps unique middleRooted
          · have whole := after middle.copy.length
            rw [List.take_length] at whole
            exact moves middle.copy harmless
              (fun file member => get_after_copy unique (FileTree.mem_files.mp member)) whole
      | some entry =>
          obtain ⟨fine, harmless, there⟩ := @reconcile_of_fits _ middle host grown middle.source.files
            (files_subset_of_front mending.source)
            (fun file member => (fits file (files_subset_of_front mending.source member)).2)
            mending.fits
          have after : ∀ count, Mending disk.source (middle.after
              ((reconcileExistingVaultMetadataMigration host middle middle.source.files).steps.take
                count)) := fun count => mending.after grown
              (fun step listed => harmless step (List.mem_of_mem_take listed))
              fun step _ absent => by
                rw [root] at absent
                cases absent
          refine .inr ⟨_, ?_, fun step listed => (harmless step listed).1, after, ?_⟩
          · rw [Option.isNone_some, if_neg Bool.false_ne_true]
            dsimp only
            rw [fine]
          · have whole := after
              (reconcileExistingVaultMetadataMigration host middle middle.source.files).steps.length
            rw [List.take_length] at whole
            exact moves _ harmless there whole
  · rintro middle source mending all shorter
    exact ⟨shorter.trans mending.source, preserves_of_allAtTarget all, mending.fits, mending.root⟩

/-- What is there stays as it is. -/
def Extends (before after : FileTree) : Prop :=
  ∀ path entry, before.get path = some entry → after.get path = some entry

/-- Reconciling a file writes only where nothing is. -/
theorem extends_reconcileFile {file : TreePath × List UInt8} {steps : List MigrationStep}
    (reconciled : reconcileFile host disk.target file = .ok steps) :
    Extends disk.target (disk.after steps).target ∧ ∀ step ∈ steps, keepsSource step = true := by
  have open_ := open_of_reconcileFile reconciled
  cases there : disk.target.get file.1 with
  | none =>
      rw [reconcileFile, open_, if_neg Bool.false_ne_true, there] at reconciled
      cases reconciled
      constructor
      · intro path entry present
        rw [get_after_of_not_written, present]
        intro step listed
        rcases List.mem_append.mp listed with made | copied
        · obtain ⟨above, selected, rfl⟩ := List.mem_map.mp made
          refine if_neg fun same => ?_
          have absent := (List.mem_filter.mp selected).2
          rw [same, present] at absent
          cases absent
        · obtain rfl := List.mem_singleton.mp copied
          refine if_neg fun same => ?_
          rw [← same, there] at present
          cases present
      · intro step listed
        rcases List.mem_append.mp listed with made | copied
        · obtain ⟨above, _, rfl⟩ := List.mem_map.mp made
          rfl
        · obtain rfl := List.mem_singleton.mp copied
          rfl
  | some entry =>
      rw [reconcileFile_there open_ there] at reconciled
      have none : steps = [] := by
        by_cases identity : file.1 = identityFile
        · rw [if_pos identity] at reconciled
          cases entry with
          | directory => cases reconciled
          | file copied =>
              rw [reconcileIdentity] at reconciled
              cases same : host.assertSameVaultIdentity file.2 copied with
              | error failure =>
                  rw [same] at reconciled
                  cases reconciled
              | ok compared =>
                  rw [same] at reconciled
                  cases reconciled
                  rfl
        · rw [if_neg identity] at reconciled
          split_ifs at reconciled with same
          cases reconciled
          rfl
      subst none
      exact ⟨fun path entry present => present, fun step listed => absurd listed List.not_mem_nil⟩

/-- Reconciling files writes only where nothing is; when it succeeds, every file was reconciled
with a target that extends the first one. -/
theorem extends_reconcile (files : List (TreePath × List UInt8)) :
    Extends disk.target
        (disk.after (reconcileExistingVaultMetadataMigration host disk files).steps).target ∧
      (∀ step ∈ (reconcileExistingVaultMetadataMigration host disk files).steps,
        keepsSource step = true) ∧
      ((reconcileExistingVaultMetadataMigration host disk files).result.isOk = true →
        ∀ file ∈ files, ∃ later, Extends disk.target later ∧
          ∃ steps, reconcileFile host later file = .ok steps) := by
  induction files generalizing disk with
  | nil => exact ⟨fun path entry present => present, fun step listed => absurd listed List.not_mem_nil,
      fun _ file member => absurd member List.not_mem_nil⟩
  | cons file files ih =>
      rw [reconcileExistingVaultMetadataMigration]
      cases reconciled : reconcileFile host disk.target file with
      | error failure =>
          exact ⟨fun path entry present => present,
            fun step listed => absurd listed List.not_mem_nil, nofun⟩
      | ok steps =>
          obtain ⟨first, keeps⟩ := extends_reconcileFile reconciled
          obtain ⟨rest, keepsRest, later⟩ := @ih (disk.after steps)
          refine ⟨?_, fun step listed => ?_, fun fine own member => ?_⟩
          · dsimp only
            rw [after_append]
            exact fun path entry present => rest path entry (first path entry present)
          · rcases List.mem_append.mp listed with early | late
            · exact keeps step early
            · exact keepsRest step late
          · rcases List.mem_cons.mp member with rfl | tail
            · exact ⟨disk.target, fun path entry present => present, steps, reconciled⟩
            · obtain ⟨target, wider, done⟩ := later fine own tail
              exact ⟨target, fun path entry present => wider path entry (first path entry present),
                done⟩

/-- With a target that is there, the migration of metadata finishes only when it reconciles. -/
theorem reconciled_of_finished {files : List (TreePath × List UInt8)} (rooted : disk.source.Rooted)
    {root : TreeEntry} (there : disk.target.get [] = some root)
    (finished : (disk.completed (migrateLegacyVaultMetadata host)).Finished files) :
    (reconcileExistingVaultMetadataMigration host disk disk.source.files).result.isOk = true ∧
      (migrateLegacyVaultMetadata host disk).steps =
        (reconcileExistingVaultMetadataMigration host disk disk.source.files).steps ++ disk.cleanup := by
  have keeps := (@extends_reconcile disk host disk.source.files).2.1
  unfold completed at finished
  unfold migrateLegacyVaultMetadata at finished ⊢
  rw [if_neg (not_not.mpr rooted.get_eq), there, Option.isNone_some, if_neg Bool.false_ne_true] at finished ⊢
  dsimp only at finished ⊢
  cases ended : (reconcileExistingVaultMetadataMigration host disk disk.source.files).result with
  | error failure =>
      rw [ended] at finished
      have still := source_after disk keeps
      have gone := finished.gone
      change (disk.after _).source.entries = [] at gone
      rw [still] at gone
      obtain ⟨rest, entries⟩ := rooted
      rw [gone] at entries
      cases entries
  | ok migrated => exact ⟨rfl, rfl⟩

/-- When a file at its place is reconciled, it can be read. -/
theorem readable_of_reconcileFile {file : TreePath × List UInt8} {steps : List MigrationStep}
    (reconciled : reconcileFile host target file = .ok steps)
    (there : target.get file.1 = some (.file file.2)) : Readable host file := by
  intro identity
  rw [reconcileFile_there (open_of_reconcileFile reconciled) there, if_pos identity] at reconciled
  cases read : host.legacyIdentity file.2 with
  | error message =>
      rw [reconcileIdentity, MetadataHost.assertSameVaultIdentity, read] at reconciled
      cases reconciled
  | ok found => exact ⟨found, rfl⟩

/-- A disk whose target has every file is finished only when the identity can be read. -/
theorem readable_of_finished {files : List (TreePath × List UInt8)} (rooted : disk.source.Rooted)
    {root : TreeEntry} (there : disk.target.get [] = some root)
    (all : AllAtTarget disk.source disk)
    (finished : (disk.completed (migrateLegacyVaultMetadata host)).Finished files) :
    ∀ file ∈ disk.source.files, Readable host file := by
  intro file member
  have fine := (reconciled_of_finished rooted there finished).1
  obtain ⟨later, wider, steps, reconciled⟩ := (extends_reconcile disk.source.files).2.2 fine file member
  exact readable_of_reconcileFile reconciled (wider _ _ (all file member))

/-- **Metadata.** -/
theorem resumable_metadata_iff (grown : disk.source.Grown) (rooted : disk.source.Rooted)
    (targetGrown : disk.target.Grown) :
    disk.Resumable (migrateLegacyVaultMetadata host) ↔
      ∀ file ∈ disk.source.files, Fits disk.target file ∧ Readable host file := by
  refine ⟨fun resumable => ?_, resumable_metadata grown rooted targetGrown⟩
  cases there : disk.target.get [] with
  | none =>
      have empty := targetGrown.get_eq_none there
      have steps : (migrateLegacyVaultMetadata host disk).steps = disk.copy ++ disk.cleanup := by
        unfold migrateLegacyVaultMetadata
        rw [if_neg (not_not.mpr rooted.get_eq), there, Option.isNone_none, if_pos rfl,
          migrateDirectoryCopyVerifyCleanup, if_neg (not_not.mpr rooted.get_eq), there]
        exact copyVerifyCleanup_steps grown.unique rooted
      have source := source_after disk (@keepsSource_of_mem_copy disk)
      have again := resumable.finishes disk.copy.length
      rw [interrupted, steps, List.take_left] at again
      have readable := readable_of_finished (by rwa [source])
        (get_after_copy grown.unique (Table.holds_of_get rooted.get_eq))
        (by
          rw [source]
          exact fun file member => get_after_copy grown.unique (FileTree.mem_files.mp member)) again
      rw [source] at readable
      refine fun file member => ⟨⟨fun above _ bytes => ?_, .inl (empty _)⟩, readable file member⟩
      rw [empty]
      exact nofun
  | some root =>
      have whole := resumable.finishes 0
      rw [interrupted_zero] at whole
      obtain ⟨fine, steps⟩ := reconciled_of_finished rooted there whole
      obtain ⟨wider, keeps, reconciled⟩ := @extends_reconcile disk host disk.source.files
      have source := source_after disk keeps
      have moved : AllAtTarget disk.source (disk.after
          (reconcileExistingVaultMetadataMigration host disk disk.source.files).steps) := by
        intro file member
        have final := whole.moved file member
        have own : disk.cleanup = (disk.after
            (reconcileExistingVaultMetadataMigration host disk disk.source.files).steps).cleanup := by
          unfold cleanup
          rw [source]
        have kept := after_cleanup (disk.after
          (reconcileExistingVaultMetadataMigration host disk disk.source.files).steps)
          disk.cleanup.length
        rw [← own, List.take_length] at kept
        rw [completed, steps, after_append, kept] at final
        exact final
      have again := resumable.finishes
        (reconcileExistingVaultMetadataMigration host disk disk.source.files).steps.length
      rw [interrupted, steps, List.take_left] at again
      have readable := readable_of_finished (by rwa [source]) (wider _ _ there) (by rwa [source]) again
      rw [source] at readable
      refine fun file member => ⟨⟨fun above front bytes present => ?_, ?_⟩, readable file member⟩
      · obtain ⟨later, extended, _, done⟩ := reconciled fine file member
        have shut : blocked later file.1 = true := by
          refine List.any_eq_true.mpr ⟨above, front, ?_⟩
          rw [extended _ _ present]
          rfl
        rw [reconcileFile, if_pos shut] at done
        cases done
      · cases present : disk.target.get file.1 with
        | none => exact .inl rfl
        | some entry =>
            have same := wider _ _ present
            rw [moved file member] at same
            exact .inr same.symm

end Metadata

/-- **Migrations.** The migration of a directory is resumable if and only if there is nothing left
to copy; the migration of a vault's metadata if and only if every file fits and the identity can
be read; the migration of the legacy layout never is, though it loses nothing. -/
theorem migrations_resumable_iff (host : MetadataHost) (grown : disk.source.Grown)
    (rooted : disk.source.Rooted) (targetGrown : disk.target.Grown) :
    (disk.Resumable migrateDirectoryCopyVerifyCleanup ↔ Copied disk.source disk) ∧
      (disk.Resumable (migrateLegacyVaultMetadata host) ↔
        ∀ file ∈ disk.source.files, Fits disk.target file ∧ Readable host file) ∧
      ¬ disk.Resumable migrateLegacyVaultLayout ∧ disk.LosesNothing migrateLegacyVaultLayout :=
  ⟨resumable_directory_iff grown rooted targetGrown, resumable_metadata_iff grown rooted targetGrown,
    not_resumable_layout rooted, losesNothing_layout grown.unique⟩

/-- A directory with one note. -/
def noteTree (bytes : List UInt8) : FileTree :=
  ⟨[([], .directory), ([units "a.md"], .file bytes)]⟩

theorem grown_noteTree (bytes : List UInt8) : (noteTree bytes).Grown := by
  refine ⟨?_, fun path name entry held => ?_⟩
  · change [[], [units "a.md"]].Nodup
    decide
  · rcases List.mem_cons.mp held with same | note
    · simp at same
    · have same := congrArg Prod.fst (List.mem_singleton.mp note)
      have root : path = [] := by
        have length := congrArg List.length same
        rw [List.length_append] at length
        exact List.length_eq_zero_iff.mp (by simpa using length)
      rw [root]
      exact List.mem_cons_self

/-- A vault of notes, where directories take a block. -/
def notesHost : MetadataHost := ⟨fun _ => [], 4096, units "/kb/vaults/notes"⟩

/-- A note that the target has already. -/
theorem migrations_resumable_note :
    (MigrationDisk.mk (noteTree [1]) (noteTree [1]) true).Resumable
        migrateDirectoryCopyVerifyCleanup ∧
      (MigrationDisk.mk (noteTree [1]) (noteTree [1]) true).Resumable
        (migrateLegacyVaultMetadata notesHost) := by
  have settled := @migrations_resumable_iff ⟨noteTree [1], noteTree [1], true⟩ notesHost
    (grown_noteTree [1]) ⟨_, rfl⟩ (grown_noteTree [1])
  have only : ∀ file ∈ (noteTree [1]).files, file = ([units "a.md"], [1]) := by
    intro file member
    exact List.mem_singleton.mp member
  refine ⟨settled.1.mpr (.inl ⟨rfl, fun file member => ?_⟩), settled.2.1.mpr fun file member => ?_⟩
  · rw [only file member]
    decide
  · rw [only file member]
    refine ⟨⟨fun above front bytes present => ?_, .inr (by decide)⟩, fun same => absurd same (by decide)⟩
    rw [List.mem_singleton.mp front] at present
    cases present

/-- A note is copied and the copy is interrupted after its first step, a note of the same size is
there, the legacy layout is interrupted after its home is made. -/
theorem migrations_not_resumable :
    ¬ (MigrationDisk.mk (noteTree [1]) .empty true).Resumable migrateDirectoryCopyVerifyCleanup ∧
      ¬ (MigrationDisk.mk (noteTree [1]) (noteTree [2]) true).LosesNothing
        migrateDirectoryCopyVerifyCleanup ∧
      ¬ (MigrationDisk.mk (noteTree [1]) (noteTree [2]) true).LosesNothing
        (migrateLegacyVaultMetadata notesHost) ∧
      ¬ (MigrationDisk.mk (noteTree [1]) .empty false).Resumable migrateLegacyVaultLayout := by
  have note : ([units "a.md"], [1]) ∈ (noteTree [1]).files := List.mem_singleton_self _
  refine ⟨fun resumable => ?_, fun keeps => ?_, fun keeps => ?_, fun resumable => ?_⟩
  · exact absurd (resumable.finishes 1).gone (by decide)
  · exact absurd (keeps 1 _ note) (by decide)
  · exact absurd (keeps 1 _ note) (by decide)
  · exact absurd (resumable.finishes 1).gone (by decide)

end Kb1Daemon
