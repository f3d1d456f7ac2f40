import Kb1Daemon.Vault.Sections

/-! # The sections of the mutations

On a steady disk a section that succeeds has changed the metadata as its operation says, and one
that fails has not, unless the metadata is written and only its audit failed
(`triple_setSection`, `triple_deleteSection`, `triple_moveSection`). Every folder with metadata is
there at the end of each of them.
-/

namespace Kb1Daemon

open JsString

namespace VaultContext

/-- The metadata at the end of a section: changed if it succeeded, the same if not. -/
def Ends (ctx : VaultContext) (view changed : Option (Place → Option FolderMetadata))
    {Value : Type} (result : VaultResult Value) (state : VaultState) : Prop :=
  match result with
  | .ok _ => ctx.Means changed state
  | .error _ => ctx.Means view state

/-- The metadata after a failure: the same, or changed if a write settles the vault. -/
def Fails (ctx : VaultContext) (settled : Bool)
    (view changed : Option (Place → Option FolderMetadata)) (state : VaultState) : Prop :=
  ctx.Means view state ∨ (settled = true ∧ ctx.Means changed state)

/-- Nothing is touched yet. -/
def Fresh (ctx : VaultContext) (view : Option (Place → Option FolderMetadata))
    (state : VaultState) : Prop :=
  ctx.Means view state ∧ state.touched = false

variable {ctx : VaultContext} {settled : Bool}
  {view changed : Option (Place → Option FolderMetadata)}

theorem stable_fails : Stable ctx (Fails ctx settled view changed) := by
  rintro before after (means | ⟨settles, means⟩) keeps
  · exact .inl (stable_means view before after means keeps)
  · exact .inr ⟨settles, stable_means changed before after means keeps⟩

/-- That nothing has been touched is stable. -/
theorem stable_fresh : Stable ctx (Fresh ctx view) :=
  fun before after fresh keeps =>
    ⟨stable_means view before after fresh.1 keeps, keeps.touched.trans fresh.2⟩

/-- What is stable in both parts is stable. -/
theorem Stable.and {first second : VaultState → Prop} (left : Stable ctx first)
    (right : Stable ctx second) : Stable ctx fun state => first state ∧ second state :=
  fun before after both keeps =>
    ⟨left before after both.1 keeps, right before after both.2 keeps⟩

theorem stable_isDirectoryAt (path : Place) :
    Stable ctx fun state => state.disk.isDirectoryAt path = true :=
  fun _ _ directory keeps => keeps.folders path directory

theorem Fresh.fails {state : VaultState} (fresh : Fresh ctx view state) :
    Fails ctx settled view changed state := .inl fresh.1

/-- A failure that leaves the metadata is one of those of a section. -/
theorem Triple.failing {before : VaultState → Prop} {Value : Type} {program : VaultProgram Value}
    {ends : Value → VaultState → Prop}
    (triple : Triple ctx settled before program ends (Means ctx view)) :
    Triple ctx settled before program ends (Fails ctx settled view changed) :=
  triple.weaken (fun _ => id) (fun _ _ => id) fun _ => .inl

/-- The audit of what is written ends a section. -/
theorem triple_audited {map : FolderMetadataMap} {Value : Type} (kind : AuditOperation)
    (entityKind : NodeKind) (path : JsString) (fromPath toPath : Option JsString)
    (summary : JsString) (value : AuditEntry → Value) :
    Triple ctx settled (Written ctx settled map)
      (do
        let audit ← ctx.writeAuditEntry kind entityKind path fromPath toPath summary
        return (.ok (value audit) : VaultResult Value))
      (Ends ctx view (some (metadataView map)))
      (Fails ctx settled view (some (metadataView map))) := by
  refine Triple.bind (triple_writeAuditEntry (stable_written map) stable_fails ?_ kind entityKind
    path fromPath toPath summary) fun audit => ?_
  · intro state written untouched
    rw [written.1, Bool.not_eq_false'] at untouched
    exact .inr ⟨untouched, written.2⟩
  · exact fun state written later keeps => stable_means _ state later written.2 keeps

/-- A write of what is stored then, and its audit. -/
theorem triple_written (located : ctx.vaultPath folderMetadataRelativePath = .done ctx.foldersPlace)
    {map : FolderMetadataMap} (formed : FormedMetadata map) {Value : Type}
    {rest : VaultProgram (VaultResult Value)}
    (audited : Triple ctx settled (Written ctx settled map) rest
      (Ends ctx view (some (metadataView map)))
      (Fails ctx settled view (some (metadataView map)))) :
    Triple ctx settled (Writable ctx view map)
      (do
        ctx.writeFolderMetadataMap map
        rest)
      (Ends ctx view (some (metadataView map)))
      (Fails ctx settled view (some (metadataView map))) := by
  exact Triple.bind (triple_writeFolderMetadataMap located formed).failing fun _ => audited

/-- What is stored is formed. -/
theorem formed_of_stored {disk : VaultDisk} {map : FolderMetadataMap}
    (stored : ctx.storedMetadata disk = some map) : FormedMetadata map := by
  unfold storedMetadata at stored
  split at stored
  · rw [← Option.some.inj stored]
    exact formedMetadata_empty
  · rename_i content _ _ _
    cases read : parseFolderMetadata content with
    | error error =>
        rw [read] at stored
        cases stored
    | ok other =>
        rw [read] at stored
        rw [← Option.some.inj stored]
        exact formedMetadata_of_parse read
  · cases stored

theorem meaning_of_stored {disk : VaultDisk} {map : FolderMetadataMap}
    (stored : ctx.storedMetadata disk = some map) :
    ctx.meaning disk = some (metadataView map) := by
  unfold meaning
  rw [stored]
  rfl

/-- A section reads the stored metadata, of folders that are there, and goes on with it. -/
theorem triple_section {before : VaultState → Prop} (stable : Stable ctx before)
    (fresh : ∀ state, before state → Fresh ctx view state) {Value : Type}
    {rest : MetadataObject → VaultProgram (VaultResult Value)}
    (goes : ctx.vaultPath folderMetadataRelativePath = .done ctx.foldersPlace →
      ∀ map : MetadataObject, FormedMetadata map.own → view = some (metadataView map.own) →
        Triple ctx settled
          (fun state => before state ∧ ctx.storedMetadata state.disk = some map.own) (rest map)
          (Ends ctx view changed) (Fails ctx settled view changed)) :
    Triple ctx settled before
      (ctx.readFolderMetadataMap >>= fun read =>
        match read with
        | .error error => return .error error
        | .ok metadata => rest metadata)
      (Ends ctx view changed) (Fails ctx settled view changed) := by
  rcases @vaultPath_folders ctx with located | ⟨failure, refused⟩
  · refine Triple.bind (triple_readFolderMetadataMap located stable stable_fails
      fun state held => (fresh state held).fails) fun read => ?_
    cases read with
    | error error =>
        exact fun state held later keeps =>
          stable_means view state later (fresh state held.1).1 keeps
    | ok map =>
        intro state held
        have stored := held.2 map rfl
        have same : view = some (metadataView map.own) :=
          (fresh state held.1).1.1.symm.trans (meaning_of_stored stored)
        exact goes located map (formed_of_stored stored) same state ⟨held.1, stored⟩
  · unfold readFolderMetadataMap
    rw [refused]
    exact fun state held later keeps => stable_fails state later (fresh state held).fails keeps

theorem Means.grounded {view : Place → Option FolderMetadata} {state : VaultState}
    (means : ctx.Means (some view) state) : ctx.Grounded view state.disk :=
  means.2 view means.1

/-- **A set on its own.** A set on a folder that is there changes the metadata of the folder, or
nothing. -/
theorem triple_setSection {rel : JsString} (valid : validateVaultPath rel .folder = true)
    (other : rel ≠ prototypeName) {input normalized : FolderMetadataInput}
    (normal : normalizeFolderMetadataInput input = .ok normalized) :
    Triple ctx settled
      (fun state => Fresh ctx view state ∧
        state.disk.isDirectoryAt (ctx.place ++ namesOf rel) = true)
      (ctx.setSection rel normalized)
      (Ends ctx view (view.map (remarked (namesOf rel) normalized)))
      (Fails ctx settled view (view.map (remarked (namesOf rel) normalized))) := by
  unfold setSection
  refine triple_section (stable_fresh.and (stable_isDirectoryAt _)) (fun _ held => held.1)
    fun located map formed same => ?_
  subst same
  rw [Option.map_some, ← metadataView_setMetadata other]
  refine (triple_written located (formed.edit valid other normal)
    (triple_audited .write .folder rel none none _ _)).weaken ?_ (fun _ _ => id) (fun _ => id)
  rintro state ⟨⟨⟨means, _⟩, directory⟩, _⟩
  refine ⟨fun names present => ?_, fun _ => means⟩
  rw [metadataView_setMetadata other] at present
  unfold remarked at present
  split_ifs at present with own
  · rw [own]
    exact directory
  · exact means.grounded names present

/-- The names of a folder with metadata are not internal. -/
theorem external_of_metadata {map : FolderMetadataMap} (formed : FormedMetadata map)
    {names : Place} (present : (metadataView map names).isSome = true) :
    ∀ name ∈ names, isInternalSegment name = false := by
  obtain ⟨metadata, found⟩ := Option.isSome_iff_exists.mp present
  obtain ⟨key, rfl, stored⟩ := metadataView_eq_some_iff.mp found
  exact (walked_of_valid (formed.of_get stored).1).external

/-- Nothing of the vault's own is at or below a place inside. -/
theorem not_above_own {path : Place} (inside : ctx.Inside path) (rest : Place) :
    ¬ path <+: ctx.place ++ metadataDirectory :: rest := by
  obtain ⟨names, some, rfl, external⟩ := inside
  rw [List.prefix_append_right_inj]
  cases names with
  | nil => exact absurd rfl some
  | cons name names =>
      rw [List.cons_prefix_cons]
      rintro ⟨rfl, _⟩
      have internal : isInternalSegment metadataDirectory = true := by decide +kernel
      rw [external metadataDirectory List.mem_cons_self] at internal
      cases internal

theorem settles_eq_false {target : Place} (away : Away ctx target) :
    ctx.settles settled target = false := by
  unfold settles
  rw [Bool.and_eq_false_iff, decide_eq_false_iff_not]
  refine .inr ?_
  rintro rfl
  exact away (units "folders.yml") [] (by decide +kernel) (by decide +kernel) (List.prefix_refl _)

/-- A change to the folders after which only the metadata is left to write. -/
theorem writable_of_touched {map : FolderMetadataMap} {disk : VaultDisk}
    (grounded : ctx.Grounded (metadataView map) disk) : Writable ctx view map ⟨disk, true⟩ :=
  ⟨grounded, fun fresh => absurd fresh Bool.true_eq_false.mp⟩

section Delete

variable {map : FolderMetadataMap} {rel : JsString}

/-- Folders that stay where they are keep the metadata that is left. -/
theorem grounded_remove {disk next : VaultDisk} (grounded : ctx.Grounded (metadataView map) disk)
    (kept : ∀ names, (metadataView map names).isSome = true → ¬ namesOf rel <+: names →
      next.get (ctx.place ++ names) = disk.get (ctx.place ++ names)) :
    ctx.Grounded (metadataView (removeFolderMetadataSubtree map rel)) next := by
  intro names present
  rw [metadataView_remove] at present
  unfold removed at present
  split_ifs at present with inner
  · cases present
  · rw [Posix.Disk.isDirectoryAt, kept names present inner]
    exact grounded names present

theorem triple_trashRelativePath :
    Triple ctx settled (Fresh ctx view) (trashRelativePath rel)
      (fun trashPath state => Fresh ctx view state ∧ ∃ deletedAt uuid,
        trashPath = posixJoin [metadataDirectory, trashName, batchId deletedAt uuid, rel])
      (Means ctx view) := by
  unfold trashRelativePath
  refine Triple.bind (Triple.request (fun _ _ _ given => given) stable_fresh) fun deletedAt => ?_
  refine Triple.bind (Triple.request (fun _ _ _ given => given) stable_fresh) fun uuid => ?_
  exact fun state fresh later keeps =>
    ⟨stable_fresh state later fresh keeps, deletedAt, uuid, rfl⟩

theorem triple_moveToTrash (formed : FormedMetadata map)
    (valid : validateVaultPath rel .folder = true) (encodes : Utf8.isWellFormed rel = true) :
    Triple ctx settled (Fresh ctx (some (metadataView map)))
      (ctx.moveToTrash rel (ctx.place ++ namesOf rel))
      (fun _ => Writable ctx (some (metadataView map)) (removeFolderMetadataSubtree map rel))
      (Means ctx (some (metadataView map))) := by
  unfold moveToTrash
  refine Triple.bind triple_trashRelativePath fun trashPath => ?_
  rintro state ⟨fresh, deletedAt, uuid, rfl⟩
  obtain ⟨plain, split⟩ := trash_splitOn (walked_of_valid valid) deletedAt uuid
  cases resolved : resolveVaultPath ctx.cwd ctx.root
      (posixJoin [metadataDirectory, trashName, batchId deletedAt uuid, rel]) with
  | error failure =>
      unfold vaultPath
      rw [resolved]
      exact fun later keeps => stable_means _ state later fresh.1 keeps
  | ok trashAbs =>
      have target : trashAbs = ctx.place ++ metadataDirectory :: trashName ::
          batchId deletedAt uuid :: namesOf rel := by
        rw [resolveVaultPath_of_plain plain resolved, split]
        rfl
      have inner : onDisk trashAbs = ctx.place ++ metadataDirectory :: trashName ::
          onDisk (batchId deletedAt uuid :: namesOf rel) := by
        have name : Utf8.toWellFormed trashName = trashName :=
          Utf8.toWellFormed_eq_self (by decide +kernel)
        rw [target, onDisk_own]
        exact congrArg (fun name => _ ++ _ :: name :: _) name
      have away : Away ctx (onDisk trashAbs) := by
        rw [inner]
        exact away_own (.inr rfl)
      have above : Away ctx (onDisk trashAbs.dropLast) := by
        rw [onDisk_dropLast]
        exact away_parent away
      rw [vaultPath_of_resolved resolved, Program.done_bind]
      refine Triple.bind (triple_mkdir above stable_fresh (stable_means _)
        fun _ held _ => held.1) (fun _ => ?_) state fresh
      refine Triple.bind (Triple.rename stable_fresh (stable_writable _) (stable_means _) ?_
        (fun _ held _ => held.1) fun _ held _ => held.1) fun _ =>
          Triple.done (stable_writable _)
      intro state disk fresh done
      rw [settles_eq_false away]
      refine writable_of_touched (grounded_remove fresh.1.grounded ?_)
      intro names present outside
      rw [Posix.Disk.get_rename done, if_neg, if_neg]
      · rwa [onDisk_placed encodes, List.prefix_append_right_inj]
      · rw [inner]
        exact not_inside_own (external_of_metadata formed present)

theorem triple_removeOrTrash (formed : FormedMetadata map)
    (valid : validateVaultPath rel .folder = true) (encodes : Utf8.isWellFormed rel = true)
    (permanent : Bool) :
    Triple ctx settled (Fresh ctx (some (metadataView map)))
      (ctx.removeOrTrash rel (ctx.place ++ namesOf rel) true permanent)
      (fun _ => Writable ctx (some (metadataView map)) (removeFolderMetadataSubtree map rel))
      (Means ctx (some (metadataView map))) := by
  unfold removeOrTrash
  cases permanent with
  | false =>
      exact Triple.bind (triple_moveToTrash formed valid encodes) fun _ =>
        Triple.done (stable_writable _)
  | true =>
      refine Triple.bind (Triple.attempt
        (fun disk => VaultDisk.rm disk (onDisk (ctx.place ++ namesOf rel)) true false)
        (fun _ => true) (fun _ _ _ given => given) stable_fresh (fun _ => stable_writable _)
        (stable_means _) ?_ (fun _ held _ => held.1) fun _ _ _ _ part =>
          absurd part.1 Bool.false_ne_true.symm) fun _ => Triple.done (stable_writable _)
      intro state value disk fresh done
      refine writable_of_touched (grounded_remove fresh.1.grounded ?_)
      intro names present outside
      rcases VaultDisk.rm_eq_ok done with ⟨rfl, _⟩ | ⟨rfl, _⟩
      · rfl
      · rw [Posix.Disk.get_without, if_neg]
        rwa [onDisk_placed encodes, List.prefix_append_right_inj]

/-- **A delete on its own.** A delete removes the metadata of what it removes, or changes no
metadata. -/
theorem triple_deleteSection (valid : validateVaultPath rel .folder = true)
    (encodes : Utf8.isWellFormed rel = true) (permanent : Bool) :
    Triple ctx settled (Fresh ctx view)
      (ctx.deleteSection rel (ctx.place ++ namesOf rel) permanent)
      (Ends ctx view (view.map (removed (namesOf rel))))
      (Fails ctx settled view (view.map (removed (namesOf rel)))) := by
  unfold deleteSection
  refine triple_section stable_fresh (fun _ => id) fun located map formed same => ?_
  subst same
  rw [Option.map_some, ← metadataView_remove]
  refine Triple.bind ((triple_removeOrTrash formed valid encodes permanent).weaken
    (fun _ held => held.1) (fun _ _ => id) fun _ => id).failing fun trashPath => ?_
  exact triple_written located (formed.remove rel) (triple_audited .delete .folder rel none none _ _)

end Delete

section Move

variable {map : FolderMetadataMap} {ends : MoveEnds}

theorem CheckedEnds.apart (checked : CheckedEnds ctx true ends) :
    ¬ namesOf ends.fromPath <+: namesOf ends.toPath :=
  relativeDescendantPath_eq_none_iff.mp (checked.outside rfl)

/-- The paths of the ends have no lone surrogate. -/
structure Encodes (ends : MoveEnds) : Prop where
  source : Utf8.isWellFormed ends.fromPath = true
  target : Utf8.isWellFormed ends.toPath = true

theorem CheckedEnds.fromOnDisk {folder : Bool} (checked : CheckedEnds ctx folder ends)
    (encodes : Encodes ends) : onDisk ends.fromAbs = ctx.place ++ namesOf ends.fromPath := by
  rw [checked.fromPlace, onDisk_placed encodes.source]

theorem CheckedEnds.toOnDisk {folder : Bool} (checked : CheckedEnds ctx folder ends)
    (encodes : Encodes ends) : onDisk ends.toAbs = ctx.place ++ namesOf ends.toPath := by
  rw [checked.toPlace, onDisk_placed encodes.target]

/-- What is not at or below the target is there. -/
def Cleared (ctx : VaultContext) (map : FolderMetadataMap) (ends : MoveEnds) (state : VaultState) :
    Prop :=
  (∀ names, (metadataView map names).isSome = true → ¬ namesOf ends.toPath <+: names →
    state.disk.isDirectoryAt (ctx.place ++ names) = true) ∧
  (state.touched = false → ctx.Means (some (metadataView map)) state)

/-- What is below the source is also below the target. -/
def Copied (ctx : VaultContext) (map : FolderMetadataMap) (ends : MoveEnds) (state : VaultState) :
    Prop :=
  Cleared ctx map ends state ∧ ∀ rest,
    (metadataView map (namesOf ends.fromPath ++ rest)).isSome = true →
      state.disk.isDirectoryAt (ctx.place ++ (namesOf ends.toPath ++ rest)) = true

/-- That the target is clear is stable. -/
theorem stable_cleared : Stable ctx (Cleared ctx map ends) := by
  rintro before after ⟨there, means⟩ keeps
  refine ⟨fun names present outside => keeps.folders _ (there names present outside), ?_⟩
  intro fresh
  exact stable_means _ before after (means (keeps.touched.symm.trans fresh)) keeps

/-- That the copy is there is stable. -/
theorem stable_copied : Stable ctx (Copied ctx map ends) := by
  rintro before after ⟨cleared, there⟩ keeps
  exact ⟨stable_cleared before after cleared keeps,
    fun rest present => keeps.folders _ (there rest present)⟩

/-- A fresh tree counts as cleared. -/
theorem Fresh.cleared {state : VaultState} (fresh : Fresh ctx (some (metadataView map)) state) :
    Cleared ctx map ends state :=
  ⟨fun names present _ => fresh.1.grounded names present, fun _ => fresh.1⟩

/-- What is below the source is not below the target. -/
theorem outside_of_source (checked : CheckedEnds ctx true ends)
    (lower : ¬ namesOf ends.toPath <+: namesOf ends.fromPath) (rest : Place) :
    ¬ namesOf ends.toPath <+: namesOf ends.fromPath ++ rest := by
  intro inner
  exact (List.prefix_or_prefix_of_prefix inner (List.prefix_append _ rest)).elim lower checked.apart

/-- What is below the target is not below the source. -/
theorem outside_of_target (checked : CheckedEnds ctx true ends)
    (lower : ¬ namesOf ends.toPath <+: namesOf ends.fromPath) (rest : Place) :
    ¬ namesOf ends.fromPath <+: namesOf ends.toPath ++ rest := by
  intro inner
  exact (List.prefix_or_prefix_of_prefix inner (List.prefix_append _ rest)).elim checked.apart lower

theorem triple_clearTarget (checked : CheckedEnds ctx true ends) (encodes : Encodes ends)
    (overwrite : Bool) :
    Triple ctx settled (Fresh ctx (some (metadataView map))) (clearTarget ends overwrite)
      (fun _ => Cleared ctx map ends) (Means ctx (some (metadataView map))) := by
  have skipped : Triple ctx settled (Fresh ctx (some (metadataView map))) (.done ())
      (fun _ => Cleared ctx map ends) (Means ctx (some (metadataView map))) :=
    (Triple.done stable_fresh).weaken (fun _ => id) (fun _ _ => Fresh.cleared) fun _ => id
  unfold clearTarget
  split
  · refine Triple.bind (triple_pathExists stable_fresh (stable_means _) fun _ held _ => held.1)
      fun occupied => ?_
    split
    · refine Triple.attempt (fun disk => VaultDisk.rm disk (onDisk ends.toAbs) true false)
        (fun _ => true) (fun _ _ _ given => given) stable_fresh (fun _ => stable_cleared)
        (stable_means _) ?_ (fun _ held _ => held.1) fun _ _ _ _ part =>
          absurd part.1 Bool.false_ne_true.symm
      intro state value disk fresh done
      refine ⟨fun names present outside => ?_, fun untouched => absurd untouched Bool.true_eq_false.mp⟩
      have there := fresh.1.grounded names present
      rcases VaultDisk.rm_eq_ok done with ⟨rfl, _⟩ | ⟨rfl, _⟩
      · exact there
      · rw [Posix.Disk.isDirectoryAt, Posix.Disk.get_without, checked.toOnDisk encodes, if_neg]
        · exact there
        · rwa [List.prefix_append_right_inj]
    · exact skipped
  · exact skipped

/-- The folders are where their moved metadata says. -/
theorem grounded_move (checked : CheckedEnds ctx true ends) (stored : FormedMetadata map)
    (fits : FitsMove map ends.fromPath ends.toPath) {disk : VaultDisk}
    (moved : ∀ rest, (metadataView map (namesOf ends.fromPath ++ rest)).isSome = true →
      disk.isDirectoryAt (ctx.place ++ (namesOf ends.toPath ++ rest)) = true)
    (others : ∀ names, (metadataView map names).isSome = true →
      ¬ namesOf ends.toPath <+: names → ¬ namesOf ends.fromPath <+: names →
        disk.isDirectoryAt (ctx.place ++ names) = true) :
    ctx.Grounded (metadataView (moveFolderMetadataSubtree map ends.fromPath ends.toPath)) disk := by
  intro names present
  rw [metadataView_move stored (plainPath_of_valid checked.target) fits] at present
  unfold Kb1Daemon.moved at present
  split_ifs at present with below inner
  · obtain ⟨rest, rfl⟩ := below
    rw [List.drop_left] at present
    exact moved rest present
  · cases present
  · exact others names present below inner

/-- A copy that is made in part takes no directory away. -/
theorem keeps_copiedPartly {source target : Place} {state : VaultState} {disk : VaultDisk}
    (inside : ctx.Inside target) (part : VaultDisk.CopiedPartly state.disk source target disk) :
    ctx.Keeps state ⟨disk, state.touched⟩ := by
  refine ⟨rfl, fun path directory => ?_, fun name rest _ _ => ?_⟩
  · rcases part.2 path with same | ⟨file, _⟩
    · rw [Posix.Disk.isDirectoryAt, same]
      exact directory
    · rw [file] at directory
      cases directory
  · refine (part.2 _).resolve_right ?_
    rintro ⟨_, below, _, same, _⟩
    exact not_above_own inside _ (same ▸ List.prefix_append target below)

theorem triple_copied (checked : CheckedEnds ctx true ends) (encodes : Encodes ends)
    (lower : ¬ namesOf ends.toPath <+: namesOf ends.fromPath) :
    Triple ctx settled (Cleared ctx map ends) (attempt (.cp ends.fromAbs ends.toAbs))
      (fun _ => Copied ctx map ends) (Means ctx (some (metadataView map))) := by
  refine Triple.attempt (fun disk => VaultDisk.cp disk (onDisk ends.fromAbs) (onDisk ends.toAbs)) id
    (fun _ _ _ given => given) stable_cleared (fun _ => stable_copied) (stable_means _) ?_
    (fun _ held => held.2) fun state disk held fresh part =>
      stable_means _ state _ (held.2 fresh) (keeps_copiedPartly checked.inside.2.onDisk part)
  intro state value disk cleared done
  have copy := VaultDisk.cp_eq_ok done
  refine ⟨⟨fun names present outside =>
    Posix.Disk.isDirectoryAt_copy copy (cleared.1 names present outside), fun untouched => ?_⟩,
    fun rest present => ?_⟩
  · refine (cleared.2 untouched).of_disk ?_ fun path directory =>
      Posix.Disk.isDirectoryAt_copy copy directory
    rw [Posix.Disk.get_copy copy]
    exact if_neg (not_above_own checked.inside.2.onDisk _)
  · have there := cleared.1 _ present (outside_of_source checked lower rest)
    rw [← List.append_assoc] at there ⊢
    rw [Posix.Disk.isDirectoryAt] at there
    rw [Posix.Disk.isDirectoryAt, Posix.Disk.get_copy copy, checked.toOnDisk encodes,
      if_pos (List.prefix_append _ rest), List.drop_left, checked.fromOnDisk encodes]
    cases found : state.disk.get (ctx.place ++ namesOf ends.fromPath ++ rest) with
    | none =>
        rw [found] at there
        cases there
    | some entry =>
        rw [found] at there
        exact there

theorem triple_copyOver (checked : CheckedEnds ctx true ends) (encodes : Encodes ends)
    (stored : FormedMetadata map)
    (fits : FitsMove map ends.fromPath ends.toPath)
    (lower : ¬ namesOf ends.toPath <+: namesOf ends.fromPath) :
    Triple ctx settled (Cleared ctx map ends)
      (do
        attempt (.cp ends.fromAbs ends.toAbs)
        attempt (.rm ends.fromAbs true false))
      (fun _ => Writable ctx (some (metadataView map))
        (moveFolderMetadataSubtree map ends.fromPath ends.toPath))
      (Means ctx (some (metadataView map))) := by
  refine Triple.bind (triple_copied checked encodes lower) fun _ => ?_
  refine Triple.attempt (fun disk => VaultDisk.rm disk (onDisk ends.fromAbs) true false)
    (fun _ => true) (fun _ _ _ given => given) stable_copied (fun _ => stable_writable _)
    (stable_means _) ?_ (fun _ held => held.1.2) fun _ _ _ _ part =>
      absurd part.1 Bool.false_ne_true.symm
  intro state value disk copied done
  have stays {names : Place} (outside : ¬ namesOf ends.fromPath <+: names)
      (there : state.disk.isDirectoryAt (ctx.place ++ names) = true) :
      disk.isDirectoryAt (ctx.place ++ names) = true := by
    rcases VaultDisk.rm_eq_ok done with ⟨rfl, _⟩ | ⟨rfl, _⟩
    · exact there
    · rw [Posix.Disk.isDirectoryAt, Posix.Disk.get_without, checked.fromOnDisk encodes, if_neg]
      · exact there
      · rwa [List.prefix_append_right_inj]
  refine writable_of_touched (grounded_move checked stored fits ?_ ?_)
  · exact fun rest present =>
      stays (outside_of_target checked lower rest) (copied.2 rest present)
  · exact fun names present outside away => stays away (copied.1.1 names present outside)

/-- A renamed folder is where its metadata goes. -/
theorem writable_of_moved (checked : CheckedEnds ctx true ends) (encodes : Encodes ends)
    (stored : FormedMetadata map)
    (fits : FitsMove map ends.fromPath ends.toPath)
    (lower : ¬ namesOf ends.toPath <+: namesOf ends.fromPath) {state : VaultState}
    (cleared : Cleared ctx map ends state) {disk : VaultDisk}
    (done : Posix.Disk.rename state.disk (onDisk ends.fromAbs) (onDisk ends.toAbs) = some disk) :
    Writable ctx (some (metadataView map))
      (moveFolderMetadataSubtree map ends.fromPath ends.toPath) ⟨disk, true⟩ := by
  refine writable_of_touched (grounded_move checked stored fits ?_ ?_)
  · intro rest present
    have there := cleared.1 _ present (outside_of_source checked lower rest)
    rw [← List.append_assoc] at there ⊢
    rw [Posix.Disk.isDirectoryAt, Posix.Disk.get_rename done, checked.toOnDisk encodes,
      if_pos (List.prefix_append _ rest), List.drop_left, checked.fromOnDisk encodes]
    exact there
  · intro names present outside away
    rw [Posix.Disk.isDirectoryAt, Posix.Disk.get_rename done, checked.toOnDisk encodes,
      checked.fromOnDisk encodes, if_neg, if_neg]
    · exact cleared.1 names present outside
    · rwa [List.prefix_append_right_inj]
    · rwa [List.prefix_append_right_inj]

theorem triple_renameOrCopy (checked : CheckedEnds ctx true ends) (encodes : Encodes ends)
    (stored : FormedMetadata map)
    (fits : FitsMove map ends.fromPath ends.toPath)
    (lower : ¬ namesOf ends.toPath <+: namesOf ends.fromPath) :
    Triple ctx settled (Cleared ctx map ends) (renameOrCopy ends true)
      (fun _ => Writable ctx (some (metadataView map))
        (moveFolderMetadataSubtree map ends.fromPath ends.toPath))
      (Means ctx (some (metadataView map))) := by
  intro state held later keeps answer after given
  have still := stable_cleared state later held keeps
  have copies : Triple ctx settled _ _ _ _ := triple_copyOver checked encodes stored fits lower
  rcases given with (⟨value, disk, ok, rfl, rfl⟩ | ⟨fresh, rfl, refused⟩ | ⟨_, _, _, part, _⟩) |
    ⟨apart, rfl, rfl⟩
  · rw [settles_eq_false (away_of_inside checked.inside.2.onDisk)]
    have moved := writable_of_moved checked encodes stored fits lower still
      (VaultDisk.rename_eq_ok ok)
    exact fun last next => stable_writable _ _ last moved next
  · have means := still.2 (fresh rfl)
    rcases refused with ⟨code, _, rfl⟩ | ⟨code, rfl⟩
    · cases code with
      | exdev => exact copies _ still
      | _ => exact fun last next => stable_means _ _ last means next
    · exact fun last next => stable_means _ _ last means next
  · exact part.elim
  · exact copies _ still

/-- The target is not above the source, or it is a folder that stays. -/
def Room (ends : MoveEnds) (overwrite : Bool) (disk : VaultDisk) : Prop :=
  ¬ namesOf ends.toPath <+: namesOf ends.fromPath ∨
    (overwrite = false ∧ disk.isDirectoryAt (onDisk ends.toAbs) = true)

theorem stable_room {overwrite : Bool} :
    Stable ctx fun state => Room ends overwrite state.disk := by
  rintro before after (lower | ⟨keeps, there⟩) kept
  · exact .inl lower
  · exact .inr ⟨keeps, kept.folders _ there⟩

theorem triple_occupied {before fails : VaultState → Prop} {path : Place}
    (stable : Stable ctx before) (stableFails : Stable ctx fails)
    (fail : ∀ state, before state → state.touched = false → fails state)
    (there : ∀ state, before state → state.disk.isDirectoryAt (onDisk path) = true) :
    Triple ctx settled before (pathExists path)
      (fun occupied state => before state ∧ occupied = true) fails := by
  intro state held later keeps answer after given
  have still := stable state later held keeps
  rcases given with ⟨value, disk, ok, rfl, rfl⟩ | ⟨fresh, rfl, refused⟩ | ⟨_, _, _, part, _⟩
  rotate_right
  · exact part.elim
  · obtain ⟨rfl, _⟩ := VaultDisk.stat_eq_ok ok
    exact fun last next => ⟨stable later last still next, rfl⟩
  · have failed := fail _ still (fresh rfl)
    rcases refused with ⟨code, absent, rfl⟩ | ⟨code, rfl⟩
    · exact absurd absent (VaultDisk.stat_ne_error (there _ still) code)
    · exact fun last next => stableFails _ last failed next

theorem triple_movePath
    (located : ctx.vaultPath folderMetadataRelativePath = .done ctx.foldersPlace)
    (checked : CheckedEnds ctx true ends) (encodes : Encodes ends) (stored : FormedMetadata map)
    (fits : FitsMove map ends.fromPath ends.toPath) (overwrite : Bool) :
    Triple ctx settled
      (fun state => Fresh ctx (some (metadataView map)) state ∧ Room ends overwrite state.disk)
      (ctx.movePath ends true overwrite (some map))
      (Ends ctx (some (metadataView map))
        (some (metadataView (moveFolderMetadataSubtree map ends.fromPath ends.toPath))))
      (Fails ctx settled (some (metadataView map))
        (some (metadataView (moveFolderMetadataSubtree map ends.fromPath ends.toPath)))) := by
  rintro state ⟨fresh, lower | ⟨rfl, there⟩⟩
  · have looks : Triple ctx settled (Fresh ctx (some (metadataView map))) (pathExists ends.toAbs)
        (fun _ => Fresh ctx (some (metadataView map))) (Means ctx (some (metadataView map))) :=
      triple_pathExists stable_fresh (stable_means _) fun _ held _ => held.1
    refine Triple.bind looks.failing (fun occupied => ?_) state fresh
    split
    · exact fun state held later keeps => stable_means _ state later held.1 keeps
    have above : Away ctx (onDisk ends.toAbs.dropLast) := by
      rw [onDisk_dropLast]
      exact away_parent (away_of_inside checked.inside.2.onDisk)
    refine Triple.bind (triple_mkdir above stable_fresh stable_fails fun _ held _ => held.fails)
      fun _ => ?_
    refine Triple.bind (triple_clearTarget checked encodes overwrite).failing fun _ => ?_
    refine Triple.bind (triple_renameOrCopy checked encodes stored fits lower).failing fun _ => ?_
    exact triple_written located (stored.move (plainPath_of_valid checked.target) fits)
      (triple_audited .move .folder ends.toPath _ _ _ _)
  · have looks : Triple ctx settled
        (fun state => Fresh ctx (some (metadataView map)) state ∧
          state.disk.isDirectoryAt (onDisk ends.toAbs) = true) (pathExists ends.toAbs)
        (fun occupied state => (Fresh ctx (some (metadataView map)) state ∧
          state.disk.isDirectoryAt (onDisk ends.toAbs) = true) ∧ occupied = true)
        (Means ctx (some (metadataView map))) :=
      triple_occupied (stable_fresh.and (stable_isDirectoryAt _)) (stable_means _)
        (fun _ held _ => held.1.1) fun _ held => held.2
    refine Triple.bind looks.failing (fun occupied => ?_) state ⟨fresh, there⟩
    rintro state ⟨⟨held, _⟩, rfl⟩
    rw [if_pos (by decide)]
    exact fun later keeps => stable_means _ state later held.1 keeps

/-- The stored metadata is of folders that can move. -/
def Storable (ctx : VaultContext) (ends : MoveEnds) (disk : VaultDisk) : Prop :=
  ∀ map, ctx.storedMetadata disk = some map → FitsMove map ends.fromPath ends.toPath

theorem stable_storable : Stable ctx fun state => Storable ctx ends state.disk :=
  fun _ _ storable keeps map stored => storable map (keeps.stored.symm.trans stored)

/-- **A move on its own.** A move of a folder whose metadata can be stored under the new paths, to
a place that is not above it, moves the metadata along, or changes no metadata. -/
theorem triple_moveSection (checked : CheckedEnds ctx true ends) (encodes : Encodes ends)
    (overwrite : Bool) :
    Triple ctx settled
      (fun state => (Fresh ctx view state ∧ Room ends overwrite state.disk) ∧
        Storable ctx ends state.disk)
      (ctx.moveSection ends overwrite)
      (Ends ctx view (view.map (moved (namesOf ends.fromPath) (namesOf ends.toPath))))
      (Fails ctx settled view
        (view.map (moved (namesOf ends.fromPath) (namesOf ends.toPath)))) := by
  unfold moveSection
  refine triple_section ((stable_fresh.and stable_room).and stable_storable)
    (fun _ held => held.1.1) fun located map stored same => ?_
  subst same
  rintro state ⟨⟨ready, storable⟩, found⟩
  have fits := storable map.own found
  rw [Option.map_some, ← metadataView_move stored (plainPath_of_valid checked.target) fits]
  exact triple_movePath located checked encodes stored fits overwrite state ready

end Move

end VaultContext

end Kb1Daemon
