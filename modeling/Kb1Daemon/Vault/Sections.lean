import Kb1Daemon.Vault.Containment
import Kb1Daemon.Vault.Disk
import Kb1Daemon.Vault.MetadataView

/-! # The sections on folder metadata

What a section of an operation does to the stored metadata and to the folders while others are at
work, on a disk that is steady for what has touched the vault. Others may add folders and files and
take files away (`Keeps`); a section that succeeds has changed the metadata as its operation says,
one that fails has not changed it, and either way every folder with metadata is there
(`triple_setSection`, `triple_deleteSection`, `triple_moveSection`).
-/

namespace Kb1Daemon

open JsString

def auditName : JsString := units "audit"

namespace VaultContext

variable (ctx : VaultContext)

/-- The place of `folders.yml`. -/
def foldersPlace : Place := ctx.place ++ [metadataDirectory, units "folders.yml"]

/-- The place of a temporary file of the metadata, as it is on disk. -/
def temporaryPlace (uuid : PlainText) : Place :=
  onDisk (ctx.place ++ [metadataDirectory] ++ [temporaryName ctx.pid uuid])

/-- The map that `folders.yml` holds, if it can be read. -/
def storedMetadata (disk : VaultDisk) : Option FolderMetadataMap :=
  match disk.get ctx.foldersPlace with
  | none => some .empty
  | some (.file content ..) => (parseFolderMetadata content).toOption.map MetadataObject.own
  | some (.directory ..) => none

/-- The stored metadata by names. -/
def meaning (disk : VaultDisk) : Option (Place → Option FolderMetadata) :=
  (ctx.storedMetadata disk).map metadataView

/-- Every folder with metadata is there. -/
def Grounded (view : Place → Option FolderMetadata) (disk : VaultDisk) : Prop :=
  ∀ names, (view names).isSome = true → disk.isDirectoryAt (ctx.place ++ names) = true

/-- The stored metadata is that of folders that are there. -/
def Followed (disk : VaultDisk) : Prop :=
  ∀ view, ctx.meaning disk = some view → ctx.Grounded view disk

/-- What others do while a section is at work: folders stay, and so do the folder metadata and its
temporary files. -/
structure Keeps (before after : VaultState) : Prop where
  touched : after.touched = before.touched
  folders : ∀ path, before.disk.isDirectoryAt path = true → after.disk.isDirectoryAt path = true
  own : ∀ name rest, name ≠ auditName → name ≠ trashName →
    after.disk.get (ctx.place ++ metadataDirectory :: name :: rest) =
      before.disk.get (ctx.place ++ metadataDirectory :: name :: rest)

variable {ctx}

/-- The metadata file is neither the audit nor the trash. -/
theorem foldersName_ne : units "folders.yml" ≠ auditName ∧ units "folders.yml" ≠ trashName := by
  decide +kernel

/-- What does nothing keeps the metadata and the directories. -/
theorem Keeps.refl (state : VaultState) : ctx.Keeps state state :=
  ⟨rfl, fun _ => id, fun _ _ _ _ => rfl⟩

/-- Keeping is done step by step. -/
theorem Keeps.trans {first second third : VaultState} (before : ctx.Keeps first second)
    (after : ctx.Keeps second third) : ctx.Keeps first third :=
  ⟨after.touched.trans before.touched, fun path directory => after.folders path
    (before.folders path directory), fun name rest first second =>
      (after.own name rest first second).trans (before.own name rest first second)⟩

/-- What is stored is read from the metadata file. -/
theorem storedMetadata_congr {before after : VaultDisk}
    (same : after.get ctx.foldersPlace = before.get ctx.foldersPlace) :
    ctx.storedMetadata after = ctx.storedMetadata before := by
  unfold storedMetadata
  rw [same]

/-- The metadata file is as before. -/
theorem Keeps.file {before after : VaultState} (keeps : ctx.Keeps before after) :
    after.disk.get ctx.foldersPlace = before.disk.get ctx.foldersPlace :=
  keeps.own _ [] foldersName_ne.1 foldersName_ne.2

/-- What keeps the metadata file keeps what is stored. -/
theorem Keeps.stored {before after : VaultState} (keeps : ctx.Keeps before after) :
    ctx.storedMetadata after.disk = ctx.storedMetadata before.disk :=
  storedMetadata_congr keeps.file

/-- What keeps the metadata file keeps its meaning. -/
theorem Keeps.meaning {before after : VaultState} (keeps : ctx.Keeps before after) :
    ctx.meaning after.disk = ctx.meaning before.disk :=
  congrArg (Option.map metadataView) keeps.stored

/-- What holds of a state stays while others are at work. -/
def Stable (ctx : VaultContext) (holds : VaultState → Prop) : Prop :=
  ∀ before after, holds before → ctx.Keeps before after → holds after

/-- Whether a rename to the place settles the vault: the write of the metadata may. -/
def settles (ctx : VaultContext) (settled : Bool) (target : Place) : Bool :=
  settled && decide (target = ctx.foldersPlace)

/-- From every state with the first property, the program ends with the second one or fails with
the third. -/
def Triple (ctx : VaultContext) (settled : Bool) {Value : Type} (before : VaultState → Prop)
    (program : VaultProgram Value) (ends : Value → VaultState → Prop)
    (fails : VaultState → Prop) : Prop :=
  ∀ state, before state → program.Secure ctx.Keeps (FsCall.answers true (ctx.settles settled)) ends
    (fun _ => fails) state

variable (ctx) in
/-- Every folder with metadata is there, and the metadata is this. -/
def Means (view : Option (Place → Option FolderMetadata)) (state : VaultState) : Prop :=
  ctx.meaning state.disk = view ∧ ctx.Followed state.disk

/-- Metadata of existing directories stays so while these are kept. -/
theorem Keeps.grounded {before after : VaultState} (keeps : ctx.Keeps before after)
    {view : Place → Option FolderMetadata} (grounded : ctx.Grounded view before.disk) :
    ctx.Grounded view after.disk :=
  fun names present => keeps.folders _ (grounded names present)

/-- The metadata means the same on a disk with the same `folders.yml` and no folder less. -/
theorem Means.of_disk {view : Option (Place → Option FolderMetadata)} {before after : VaultState}
    (means : ctx.Means view before)
    (same : after.disk.get ctx.foldersPlace = before.disk.get ctx.foldersPlace)
    (folders : ∀ path, before.disk.isDirectoryAt path = true →
      after.disk.isDirectoryAt path = true) : ctx.Means view after := by
  have stored : ctx.meaning after.disk = ctx.meaning before.disk :=
    congrArg (Option.map metadataView) (storedMetadata_congr same)
  refine ⟨stored.trans means.1, fun other found names present => ?_⟩
  rw [stored] at found
  exact folders _ (means.2 other found names present)

/-- What the metadata file means is stable. -/
theorem stable_means (view : Option (Place → Option FolderMetadata)) :
    Stable ctx (ctx.Means view) := by
  intro before after means keeps
  exact means.of_disk keeps.file keeps.folders

namespace Triple

variable {settled : Bool} {Value Other : Type} {before : VaultState → Prop} {program : VaultProgram Value}
  {ends : Value → VaultState → Prop} {fails : VaultState → Prop}

/-- A triple holds for a stronger start and milder ends. -/
theorem weaken {weaker : Value → VaultState → Prop} {stronger milder : VaultState → Prop}
    (triple : Triple ctx settled before program ends fails) (first : ∀ state, stronger state → before state)
    (last : ∀ value state, ends value state → weaker value state)
    (soften : ∀ state, fails state → milder state) : Triple ctx settled stronger program weaker milder :=
  fun state held => (triple state (first state held)).weaken last fun _ => soften

/-- Triples are put one after another. -/
theorem bind {next : Value → VaultProgram Other} {goal : Other → VaultState → Prop}
    (first : Triple ctx settled before program ends fails)
    (rest : ∀ value, Triple ctx settled (ends value) (next value) goal fails) :
    Triple ctx settled before (program >>= next) goal fails :=
  fun state held => (first state held).bind Keeps.refl rest

/-- What is done keeps what is stable. -/
theorem done {value : Value} (stable : Stable ctx before) :
    Triple ctx settled before (.done value) (fun _ => before) fails :=
  fun state held later keeps => stable state later held keeps

/-- A failure ends in what is stable. -/
theorem thrown {failure : VaultFailure} (stable : Stable ctx fails) :
    Triple ctx settled fails (.thrown failure : VaultProgram Value) ends fails :=
  fun state held later keeps => stable state later held keeps

/-- A call whose failure is thrown. -/
theorem attempt {call : FsCall (Except FsCode Value)}
    (performed : VaultDisk → Except FsCode (Value × VaultDisk)) (touches : Bool → Bool)
    (is : ∀ state answer after, call.answers true (ctx.settles settled) state answer after →
      Answered true performed (call.Partly true) touches state answer after)
    (stable : Stable ctx before) (stableEnds : ∀ value, Stable ctx (ends value))
    (stableFails : Stable ctx fails)
    (does : ∀ state value disk, before state → performed state.disk = .ok (value, disk) →
      ends value ⟨disk, touches state.touched⟩)
    (fail : ∀ state, before state → state.touched = false → fails state)
    (half : ∀ state disk, before state → state.touched = false → call.Partly true state.disk disk →
      fails ⟨disk, state.touched⟩) :
    Triple ctx settled before (Kb1Daemon.attempt call) ends fails := by
  intro state held later keeps answer after given
  have still := stable state later held keeps
  rcases is later answer after given with
    ⟨value, disk, ok, rfl, rfl⟩ | ⟨fresh, same, refused⟩ | ⟨fresh, code, disk, part, rfl, rfl⟩
  · exact fun last next => stableEnds value _ last (does later value disk still ok) next
  · have failed := fail later still (fresh rfl)
    rw [same]
    rcases refused with ⟨code, _, rfl⟩ | ⟨code, rfl⟩ <;>
      exact fun last next => stableFails _ last failed next
  · exact fun last next => stableFails _ last (half later disk still (fresh rfl) part) next

/-- A call without an effect keeps what is stable. -/
theorem request {call : FsCall Value} (is : ∀ state answer after,
      call.answers true (ctx.settles settled) state answer after → after = state)
    (stable : Stable ctx before) :
    Triple ctx settled before (Kb1Daemon.request call) (fun _ => before) fails := by
  intro state held later keeps answer after given
  rw [is later answer after given]
  exact fun last next => stable _ last (stable state later held keeps) next

/-- A handler takes over where the program fails. -/
theorem handle {handler : VaultFailure → VaultProgram Value} (raised : VaultState → Prop)
    (first : Triple ctx settled before program ends raised)
    (caught : ∀ failure, Triple ctx settled raised (handler failure) ends fails) :
    Triple ctx settled before (program.handle handler) ends fails :=
  fun state held => (first state held).handle Keeps.refl caught

/-- A rename whose failure is thrown. -/
theorem rename {source target : Place} {ends : VaultState → Prop} (stable : Stable ctx before)
    (stableEnds : Stable ctx ends) (stableFails : Stable ctx fails)
    (does : ∀ state disk, before state →
      Posix.Disk.rename state.disk (onDisk source) (onDisk target) = some disk →
        ends ⟨disk, !ctx.settles settled (onDisk target)⟩)
    (fail : ∀ state, before state → state.touched = false → fails state)
    (across : ∀ state, before state → (onDisk source).dropLast ≠ (onDisk target).dropLast →
      fails state) :
    Triple ctx settled before (Kb1Daemon.attempt (.rename source target)) (fun _ => ends)
      fails := by
  intro state held later keeps answer after given
  have still := stable state later held keeps
  rcases given with (⟨value, disk, ok, rfl, rfl⟩ | ⟨fresh, same, refused⟩ | ⟨_, _, _, part, _⟩) |
    ⟨apart, same, rfl⟩
  · have done := does later disk still (VaultDisk.rename_eq_ok ok)
    exact fun last next => stableEnds _ last done next
  · have failed := fail later still (fresh rfl)
    rw [same]
    rcases refused with ⟨code, _, rfl⟩ | ⟨code, rfl⟩ <;>
      exact fun last next => stableFails _ last failed next
  · exact part.elim
  · rw [same]
    exact fun last next => stableFails _ last (across later still apart) next

/-- A call that does no more than others do keeps what is stable. -/
theorem keeps {call : FsCall (Except FsCode Value)}
    (performed : VaultDisk → Except FsCode (Value × VaultDisk))
    (is : ∀ state answer after, call.answers true (ctx.settles settled) state answer after →
      Answered true performed (call.Partly true) id state answer after)
    (stable : Stable ctx before) (stableFails : Stable ctx fails)
    (does : ∀ state value disk, performed state.disk = .ok (value, disk) →
      ctx.Keeps state ⟨disk, state.touched⟩)
    (half : ∀ state disk, call.Partly true state.disk disk → ctx.Keeps state ⟨disk, state.touched⟩)
    (fail : ∀ state, before state → state.touched = false → fails state) :
    Triple ctx settled before (Kb1Daemon.attempt call) (fun _ => before) fails := by
  refine attempt performed id is stable (fun _ => stable) stableFails ?_ fail ?_
  · exact fun state value disk held ok => stable state _ held (does state value disk ok)
  · exact fun state disk held fresh part =>
      stableFails state _ (fail state held fresh) (half state disk part)

end Triple

section Calls

/-- No own location of the vault but the audit and the trash is at or above the path. -/
def Away (ctx : VaultContext) (path : Place) : Prop :=
  ∀ name rest, name ≠ auditName → name ≠ trashName →
    ¬ ctx.place ++ metadataDirectory :: name :: rest <+: path

/-- What is inside the vault is nothing of its own directory. -/
theorem not_inside_own {names rest : Place}
    (external : ∀ name ∈ names, isInternalSegment name = false) :
    ¬ ctx.place ++ metadataDirectory :: rest <+: ctx.place ++ names := by
  rw [List.prefix_append_right_inj]
  rintro ⟨tail, rfl⟩
  have internal : isInternalSegment metadataDirectory = true := by decide +kernel
  rw [external metadataDirectory List.mem_cons_self] at internal
  cases internal

/-- What is inside the vault is away from the metadata. -/
theorem away_of_inside {path : Place} (inside : ctx.Inside path) : Away ctx path := by
  obtain ⟨names, _, rfl, external⟩ := inside
  exact fun name rest _ _ => not_inside_own external

/-- A directory of what is away is away. -/
theorem away_parent {path : Place} (away : Away ctx path) : Away ctx path.dropLast :=
  fun name rest first second inner =>
    away name rest first second (inner.trans (List.dropLast_prefix path))

/-- The audit and the trash are away from the metadata. -/
theorem away_own {name : JsString} {rest : Place} (own : name = auditName ∨ name = trashName) :
    Away ctx (ctx.place ++ metadataDirectory :: name :: rest) := by
  intro other tail first second
  rw [List.prefix_append_right_inj, List.cons_prefix_cons, List.cons_prefix_cons]
  rintro ⟨_, rfl, _⟩
  exact own.elim first second

/-- The names of the vault's own files are stored as they are. -/
theorem onDisk_ownNames (name : JsString)
    (own : name ∈ [metadataDirectory, units "folders.yml", auditName, units "changes.jsonl"]) :
    Utf8.toWellFormed name = name := by
  have formed : ([metadataDirectory, units "folders.yml", auditName, units "changes.jsonl"].all
    Utf8.isWellFormed) = true := by decide +kernel
  exact Utf8.toWellFormed_eq_self (List.all_eq_true.mp formed name own)

/-- On disk the vault's own is where it is. -/
theorem onDisk_own (names : Place) : onDisk (ctx.place ++ metadataDirectory :: names) =
    ctx.place ++ metadataDirectory :: onDisk names := by
  have own : Utf8.toWellFormed metadataDirectory = metadataDirectory :=
    onDisk_ownNames _ List.mem_cons_self
  rw [onDisk_append, ← own]
  exact congrArg₂ (· ++ ·) ctx.known (congrArg (· :: _) own)

/-- On disk a file or a directory of the vault's own is where it is. -/
theorem onDisk_ownFile (name : JsString)
    (own : name ∈ [metadataDirectory, units "folders.yml", auditName, units "changes.jsonl"]) :
    onDisk (ctx.place ++ metadataDirectory :: [name]) = ctx.place ++ metadataDirectory :: [name] := by
  rw [onDisk_own, onDisk, List.map_singleton, onDisk_ownNames name own]

/-- On disk a path without lone surrogates leads to where it says. -/
theorem onDisk_placed {rel : JsString} (encodes : Utf8.isWellFormed rel = true) :
    onDisk (ctx.place ++ namesOf rel) = ctx.place ++ namesOf rel := by
  rw [onDisk_append, onDisk_namesOf_iff.mpr encodes]
  exact congrArg (· ++ _) ctx.known

/-- The name of the metadata file is stored as it is. -/
theorem onDisk_foldersPlace : onDisk ctx.foldersPlace = ctx.foldersPlace :=
  onDisk_ownFile _ (.tail _ (.head _))

/-- The directory of the audit is away from the metadata. -/
theorem away_audit : Away ctx (onDisk (ctx.place ++ [metadataDirectory, units "audit"])) := by
  rw [onDisk_ownFile (units "audit") (.tail _ (.tail _ (.head _)))]
  exact away_own (.inl rfl)

/-- The file of the audit is away from the metadata. -/
theorem away_changes : Away ctx
    (onDisk (ctx.place ++ [metadataDirectory, units "audit"] ++ [units "changes.jsonl"])) := by
  rw [onDisk_append, onDisk_ownFile (units "audit") (.tail _ (.tail _ (.head _))),
    List.append_assoc]
  exact away_own (.inl rfl)

/-- Making the internal directory touches no metadata. -/
theorem away_metadataDirectory : Away ctx (onDisk (ctx.place ++ [metadataDirectory])) := by
  intro name rest _ _ inner
  rw [onDisk_own] at inner
  have length := inner.length_le
  simp [onDisk] at length

/-- Making a directory away from the metadata keeps it. -/
theorem keeps_mkdir {state : VaultState} {path : Place} {value : Unit} {disk : VaultDisk}
    (away : Away ctx path) (done : VaultDisk.mkdir state.disk path = .ok (value, disk)) :
    ctx.Keeps state ⟨disk, state.touched⟩ := by
  have made := VaultDisk.mkdir_eq_ok done
  refine ⟨rfl, fun other directory => Posix.Disk.isDirectoryAt_makeAll made (.inl directory), ?_⟩
  intro name rest first second
  rw [Posix.Disk.get_makeAll made, if_neg fun both => away name rest first second both.1]

/-- A directory that is made on the way takes nothing away. -/
theorem keeps_madePartly {state : VaultState} {path : Place} {disk : VaultDisk}
    (away : Away ctx path) (part : VaultDisk.MadePartly state.disk path disk) :
    ctx.Keeps state ⟨disk, state.touched⟩ := by
  refine ⟨rfl, fun other directory => ?_, fun name rest first second => ?_⟩
  · rcases part other with same | ⟨_, absent, _⟩
    · rw [Posix.Disk.isDirectoryAt, same]
      exact directory
    · rw [Posix.Disk.isDirectoryAt, absent] at directory
      cases directory
  · exact (part _).resolve_right fun both => away name rest first second both.1

/-- A file that is written in part takes no directory away. -/
theorem keeps_writtenPartly {state : VaultState} {path : Place} {disk : VaultDisk}
    (away : Away ctx path) (part : VaultDisk.WrittenPartly state.disk path disk) :
    ctx.Keeps state ⟨disk, state.touched⟩ := by
  obtain ⟨file, _, others⟩ := part
  refine ⟨rfl, fun other directory => ?_, fun name rest first second => others _ ?_⟩
  · rw [Posix.Disk.isDirectoryAt, others other]
    · exact directory
    · rintro rfl
      rw [file] at directory
      cases directory
  · rintro rfl
    exact away name rest first second (List.prefix_refl _)

/-- Writing a file leaves the directories. -/
theorem isDirectoryAt_write {disk next : VaultDisk} {path : Place} {content : FileContent}
    (done : disk.write path content fileMode 0 = some next) {other : Place}
    (directory : disk.isDirectoryAt other = true) : next.isDirectoryAt other = true := by
  have free : disk.isDirectoryAt path = false := by
    unfold Posix.Disk.write at done
    split_ifs at done with free
    exact free.2.2
  rw [Posix.Disk.isDirectoryAt, Posix.Disk.get_write done, if_neg]
  · exact directory
  · rintro rfl
    rw [free] at directory
    cases directory

/-- Writing a file away from the metadata keeps it. -/
theorem keeps_putFile {state : VaultState} {path : Place} {content : FileContent} {value : Unit}
    {disk : VaultDisk} (away : Away ctx path)
    (done : VaultDisk.putFile state.disk path content = .ok (value, disk)) :
    ctx.Keeps state ⟨disk, state.touched⟩ := by
  have written := VaultDisk.putFile_eq_ok done
  refine ⟨rfl, fun other directory => isDirectoryAt_write written directory, ?_⟩
  intro name rest first second
  rw [Posix.Disk.get_write written, if_neg]
  rintro same
  exact away name rest first second (same ▸ List.prefix_refl _)

end Calls

section Parts

variable {settled : Bool} {before : VaultState → Prop} {fails : VaultState → Prop}
  {view : Option (Place → Option FolderMetadata)}

/-- A look tells whether there is a directory. -/
theorem triple_statOrNull {path : Place} (stable : Stable ctx before) (stableFails : Stable ctx fails)
    (fail : ∀ state, before state → state.touched = false → fails state) :
    Triple ctx settled before (statOrNull path)
      (fun stat state => before state ∧
        ∀ folder, stat = some folder → folder.kind = .folder →
          state.disk.isDirectoryAt (onDisk path) = true)
      fails := by
  intro state held later keeps answer after given
  have still := stable state later held keeps
  rcases given with ⟨value, disk, ok, rfl, rfl⟩ | ⟨fresh, same, refused⟩ | ⟨_, _, _, part, _⟩
  rotate_right
  · exact part.elim
  · obtain ⟨rfl, entry, found, rfl⟩ := VaultDisk.stat_eq_ok ok
    intro last next
    refine ⟨stable later last still next, ?_⟩
    intro stat same folder
    refine next.folders (onDisk path) ?_
    rw [← Option.some.inj same] at folder
    rw [Posix.Disk.isDirectoryAt, found]
    cases entry with
    | directory => rfl
    | file => cases folder
  · rw [same]
    rcases refused with ⟨code, _, rfl⟩ | ⟨code, rfl⟩
    · cases code with
      | enoent =>
          exact fun last next => ⟨stable later last still next, by rintro _ ⟨⟩⟩
      | _ =>
          exact fun last next => stableFails _ last (fail later still (fresh rfl)) next
    · exact fun last next => stableFails _ last (fail later still (fresh rfl)) next

/-- A test for existence keeps what is stable. -/
theorem triple_pathExists {path : Place} (stable : Stable ctx before)
    (stableFails : Stable ctx fails)
    (fail : ∀ state, before state → state.touched = false → fails state) :
    Triple ctx settled before (pathExists path) (fun _ => before) fails := by
  refine Triple.bind ((triple_statOrNull stable stableFails fail).weaken (fun _ => id)
    (fun _ _ held => held.1) fun _ => id) fun stat => ?_
  exact fun state held later keeps => stable state later held keeps

/-- Making a directory away from the metadata keeps what is stable. -/
theorem triple_mkdir {path : Place} (away : Away ctx (onDisk path)) (stable : Stable ctx before)
    (stableFails : Stable ctx fails)
    (fail : ∀ state, before state → state.touched = false → fails state) :
    Triple ctx settled before (attempt (.mkdir path)) (fun _ => before) fails :=
  Triple.keeps (fun disk => VaultDisk.mkdir disk (onDisk path)) (fun _ _ _ given => given) stable
    stableFails (fun _ _ _ done => keeps_mkdir away done) (fun _ _ part => keeps_madePartly away part)
    fail

/-- Appending away from the metadata keeps what is stable. -/
theorem triple_appendFile {path : Place} (away : Away ctx (onDisk path)) (entry : AuditEntry)
    (stable : Stable ctx before) (stableFails : Stable ctx fails)
    (fail : ∀ state, before state → state.touched = false → fails state) :
    Triple ctx settled before (attempt (.appendFile path entry)) (fun _ => before) fails :=
  Triple.keeps
    (fun disk => VaultDisk.putFile disk (onDisk path)
      (VaultDisk.appended (disk.get (onDisk path)) entry))
    (fun _ _ _ given => given) stable stableFails (fun _ _ _ done => keeps_putFile away done)
    (fun _ _ part => keeps_writtenPartly away part) fail

/-- The audit keeps what is stable. -/
theorem triple_writeAuditEntry (stable : Stable ctx before) (stableFails : Stable ctx fails)
    (fail : ∀ state, before state → state.touched = false → fails state)
    (kind : AuditOperation) (entityKind : NodeKind) (path : JsString)
    (fromPath toPath : Option JsString) (summary : JsString) :
    Triple ctx settled before (ctx.writeAuditEntry kind entityKind path fromPath toPath summary)
      (fun _ => before) fails := by
  unfold writeAuditEntry
  refine Triple.bind (Triple.request (fun _ _ _ given => given) stable) fun id => ?_
  refine Triple.bind (Triple.request (fun _ _ _ given => given) stable) fun ts => ?_
  refine Triple.bind (triple_mkdir away_audit stable stableFails fail) fun _ => ?_
  refine Triple.bind (triple_appendFile away_changes _ stable stableFails fail) fun _ => ?_
  exact fun state held later keeps => stable state later held keeps

/-- The path of the metadata resolves to its place, or fails. -/
theorem vaultPath_folders :
    ctx.vaultPath folderMetadataRelativePath = .done ctx.foldersPlace ∨
      ∃ failure, ctx.vaultPath folderMetadataRelativePath = .thrown failure := by
  cases resolved : resolveVaultPath ctx.cwd ctx.root folderMetadataRelativePath with
  | error failure =>
      refine .inr ⟨failure, ?_⟩
      unfold vaultPath
      rw [resolved]
  | ok place =>
      refine .inl ?_
      rw [vaultPath_of_resolved resolved,
        resolveVaultPath_of_plain plain_folderMetadataRelativePath resolved,
        folderMetadataRelativePath_splitOn]
      rfl

/-- A read gives the stored map. -/
theorem triple_readFolderMetadataMap
    (located : ctx.vaultPath folderMetadataRelativePath = .done ctx.foldersPlace)
    (stable : Stable ctx before) (stableFails : Stable ctx fails)
    (fail : ∀ state, before state → fails state) :
    Triple ctx settled before ctx.readFolderMetadataMap
      (fun result state => before state ∧
        ∀ map, result = .ok map → ctx.storedMetadata state.disk = some map.own) fails := by
  unfold readFolderMetadataMap
  rw [located]
  intro state held later keeps answer after given
  have still := stable state later held keeps
  rcases given with ⟨value, disk, ok, rfl, rfl⟩ | ⟨fresh, same, refused⟩ | ⟨_, _, _, part, _⟩
  rotate_right
  · exact part.elim
  · obtain ⟨rfl, mode, time, found⟩ := VaultDisk.readFile_eq_ok ok
    rw [onDisk_foldersPlace] at found
    intro last next
    refine ⟨stable later last still next, fun map read => ?_⟩
    rw [next.stored]
    unfold storedMetadata
    dsimp only
    rw [found]
    dsimp only
    rw [read]
    rfl
  · rw [same]
    rcases refused with ⟨code, absent, rfl⟩ | ⟨code, rfl⟩
    · cases code with
      | enoent =>
          intro last next
          refine ⟨stable later last still next, ?_⟩
          rintro _ ⟨⟩
          rw [onDisk_foldersPlace] at absent
          rw [next.stored]
          unfold storedMetadata
          rw [VaultDisk.get_of_readFile_enoent absent]
          rfl
      | _ => exact fun last next => stableFails _ last (fail later still) next
    · exact fun last next => stableFails _ last (fail later still) next

/-- The state in which a map can be written: its folders are there, and the metadata still means
what it did unless the vault is touched. -/
def Writable (ctx : VaultContext) (view : Option (Place → Option FolderMetadata))
    (map : FolderMetadataMap) (state : VaultState) : Prop :=
  ctx.Grounded (metadataView map) state.disk ∧ (state.touched = false → ctx.Means view state)

/-- That a map may be written is stable. -/
theorem stable_writable (map : FolderMetadataMap) : Stable ctx (Writable ctx view map) := by
  rintro before after ⟨grounded, means⟩ keeps
  refine ⟨keeps.grounded grounded, fun fresh => ?_⟩
  exact stable_means view before after (means (keeps.touched.symm.trans fresh)) keeps

/-- What a write of the metadata leaves: the metadata is the written map. -/
def Written (ctx : VaultContext) (settled : Bool) (map : FolderMetadataMap) (state : VaultState) :
    Prop :=
  state.touched = !settled ∧ ctx.Means (some (metadataView map)) state

/-- That a map has been written is stable. -/
theorem stable_written (map : FolderMetadataMap) : Stable ctx (Written ctx settled map) :=
  fun before after written keeps =>
    ⟨keeps.touched.trans written.1, stable_means _ before after written.2 keeps⟩

/-- The name of a temporary file begins with a dot, also on disk. -/
theorem temporaryName_ne {uuid : PlainText} {name : JsString} (plain : name.head? ≠ some dot) :
    Utf8.toWellFormed (temporaryName ctx.pid uuid) ≠ name := by
  rintro rfl
  rw [temporaryName, List.cons_append, List.cons_append, Utf8.toWellFormed_cons (by decide)] at plain
  exact plain rfl

/-- The names in the internal directory do not begin with a dot. -/
theorem ownNames_plain : auditName.head? ≠ some dot ∧ trashName.head? ≠ some dot ∧
    (units "folders.yml").head? ≠ some dot := by
  decide +kernel

/-- The temporary file lies in the internal directory. -/
theorem temporaryPlace_eq (uuid : PlainText) : ctx.temporaryPlace uuid =
    ctx.place ++ [metadataDirectory, Utf8.toWellFormed (temporaryName ctx.pid uuid)] := by
  rw [temporaryPlace, List.append_assoc]
  exact onDisk_own [temporaryName ctx.pid uuid]

/-- A file under a temporary name, the folders and the metadata being as before. -/
theorem Writable.of_disk {map : FolderMetadataMap} {before after : VaultState}
    (writable : Writable ctx view map before) (touched : after.touched = before.touched)
    (same : after.disk.get ctx.foldersPlace = before.disk.get ctx.foldersPlace)
    (folders : ∀ path, before.disk.isDirectoryAt path = true →
      after.disk.isDirectoryAt path = true) : Writable ctx view map after := by
  refine ⟨fun names present => folders _ (writable.1 names present), fun fresh => ?_⟩
  exact (writable.2 (touched.symm.trans fresh)).of_disk same folders

/-- What is not a directory is not at or above one. -/
theorem not_inside_of_file {disk : VaultDisk} {front path : Place}
    (file : disk.isDirectoryAt front = false) (directory : disk.isDirectoryAt path = true) :
    ¬ front <+: path := by
  intro inner
  by_cases own : front = path
  · rw [own, directory] at file
    cases file
  · have higher := Posix.Disk.isDirectoryAt_above
      (Option.isSome_of_any directory) (Posix.mem_above.mpr ⟨inner, own⟩)
    rw [file] at higher
    cases higher

/-- A rename of a file takes no folder away. -/
theorem isDirectoryAt_rename_file {disk next : VaultDisk} {source target : Place}
    (done : Posix.Disk.rename disk source target = some next)
    (file : disk.isDirectoryAt source = false) {path : Place}
    (directory : disk.isDirectoryAt path = true) : next.isDirectoryAt path = true := by
  obtain ⟨_, _, present, gives⟩ := Posix.Disk.rename_isSome done
  have free : disk.isDirectoryAt target = false := by
    unfold Posix.Disk.givesWay at gives
    unfold Posix.Disk.isDirectoryAt at file ⊢
    cases found : disk.get target with
    | none => rfl
    | some entry =>
        rw [found] at gives
        dsimp only at gives
        unfold Posix.Disk.isDirectoryAt at gives
        rw [file] at gives
        rw [Option.any_some]
        by_cases kind : entry.isDirectory = true
        · rw [if_pos kind] at gives
          cases gives
        · exact Bool.not_eq_true _ ▸ kind
  rw [Posix.Disk.isDirectoryAt, Posix.Disk.get_rename done, if_neg fun inner =>
      not_inside_of_file free directory inner,
    if_neg fun inner => not_inside_of_file file directory inner]
  exact directory

/-- A removal of a file takes no folder away. -/
theorem isDirectoryAt_without_file {disk : VaultDisk} {source : Place}
    (file : disk.isDirectoryAt source = false) {path : Place}
    (directory : disk.isDirectoryAt path = true) : (disk.without source).isDirectoryAt path = true := by
  rw [Posix.Disk.isDirectoryAt, Posix.Disk.get_without, if_neg fun inner =>
    not_inside_of_file file directory inner]
  exact directory

/-- A file with the content at the temporary place, and a map that can be written. -/
def Prepared (ctx : VaultContext) (view : Option (Place → Option FolderMetadata))
    (map : FolderMetadataMap) (temporaryPath : Place) (state : VaultState) : Prop :=
  Writable ctx view map state ∧ ∃ mode modified, state.disk.get temporaryPath =
    some (.file (folderMetadataContent ctx.host map) mode modified)

/-- That the temporary file holds the map is stable. -/
theorem stable_prepared (map : FolderMetadataMap) (uuid : PlainText) :
    Stable ctx (Prepared ctx view map (ctx.temporaryPlace uuid)) := by
  rintro before after ⟨writable, mode, modified, found⟩ keeps
  refine ⟨stable_writable map before after writable keeps, mode, modified, ?_⟩
  rw [← found, temporaryPlace_eq]
  exact keeps.own _ [] (temporaryName_ne ownNames_plain.1) (temporaryName_ne ownNames_plain.2.1)

/-- The temporary file is not the metadata file. -/
theorem foldersPlace_ne_temporary (uuid : PlainText) :
    ctx.temporaryPlace uuid ≠ ctx.foldersPlace := by
  intro same
  rw [temporaryPlace_eq, foldersPlace, List.append_right_inj] at same
  exact temporaryName_ne ownNames_plain.2.2 (List.singleton_injective (List.cons.inj same).2)

/-- The renamed file is the metadata then. -/
theorem written_of_rename {map : FolderMetadataMap} (formed : FormedMetadata map)
    {state : VaultState} {temporaryPath : Place}
    (prepared : Prepared ctx view map temporaryPath state) {disk : VaultDisk}
    (done : Posix.Disk.rename state.disk temporaryPath ctx.foldersPlace = some disk) :
    Written ctx settled map ⟨disk, !ctx.settles settled ctx.foldersPlace⟩ := by
  obtain ⟨writable, mode, modified, found⟩ := prepared
  have file : state.disk.isDirectoryAt temporaryPath = false := by
    rw [Posix.Disk.isDirectoryAt, found]
    rfl
  obtain ⟨again, read, _, same⟩ := parseFolderMetadata_folderMetadataContent formed ctx.host
  have stored : ctx.meaning disk = some (metadataView map) := by
    unfold meaning storedMetadata
    rw [Posix.Disk.get_rename done, if_pos (List.prefix_refl _), List.drop_length, List.append_nil,
      found]
    dsimp only
    rw [read]
    exact congrArg some same
  refine ⟨by simp [settles], stored, fun other known names present => ?_⟩
  rw [stored] at known
  rw [← Option.some.inj known] at present
  exact isDirectoryAt_rename_file done file (writable.1 names present)

/-- A write of formed metadata of folders that are there succeeds or changes nothing. -/
theorem triple_writeFolderMetadataMap
    (located : ctx.vaultPath folderMetadataRelativePath = .done ctx.foldersPlace)
    {map : FolderMetadataMap} (formed : FormedMetadata map) :
    Triple ctx settled (Writable ctx view map) (ctx.writeFolderMetadataMap map)
      (fun _ => Written ctx settled map) (ctx.Means view) := by
  have untouched : ∀ state, Writable ctx view map state → state.touched = false →
      ctx.Means view state := fun _ writable => writable.2
  have directory : ctx.foldersPlace.dropLast = ctx.place ++ [metadataDirectory] := by
    rw [foldersPlace, List.dropLast_append_of_ne_nil (List.cons_ne_nil _ _)]
    rfl
  unfold writeFolderMetadataMap
  rw [located, Program.done_bind, directory]
  refine Triple.bind (triple_mkdir away_metadataDirectory (stable_writable map) (stable_means view)
    untouched) fun _ => ?_
  refine Triple.bind (Triple.request (fun _ _ _ given => given) (stable_writable map)) fun uuid => ?_
  have apart : ctx.temporaryPlace uuid ≠ ctx.foldersPlace := foldersPlace_ne_temporary uuid
  have writes : Triple ctx settled (Writable ctx view map)
      (attempt (.writeFile (ctx.place ++ [metadataDirectory] ++ [temporaryName ctx.pid uuid])
        (folderMetadataContent ctx.host map)))
      (fun _ => Prepared ctx view map (ctx.temporaryPlace uuid)) (ctx.Means view) := by
    refine Triple.attempt (fun disk => VaultDisk.putFile disk (ctx.temporaryPlace uuid) _) id
      (fun _ _ _ given => given) (stable_writable map) (fun _ => stable_prepared map uuid)
      (stable_means view) ?_ untouched ?_
    · intro state value disk writable done
      have written := VaultDisk.putFile_eq_ok done
      refine ⟨writable.of_disk rfl ?_ fun path directory =>
        isDirectoryAt_write written directory, fileMode, 0, ?_⟩
      · rw [Posix.Disk.get_write written, if_neg (Ne.symm apart)]
      · rw [Posix.Disk.get_write written, if_pos rfl]
    · rintro state disk writable fresh ⟨file, _, others⟩
      refine (untouched state writable fresh).of_disk (others _ (Ne.symm apart)) fun path directory => ?_
      rw [Posix.Disk.isDirectoryAt, others path]
      · exact directory
      · rintro rfl
        rw [file] at directory
        cases directory
  refine Triple.handle (ctx.Means view) (Triple.bind writes fun _ =>
    Triple.rename (stable_prepared map uuid) (stable_written map) (stable_means view) ?_
      (fun _ prepared => prepared.1.2) ?_) fun failure => ?_
  · intro state disk prepared done
    rw [onDisk_foldersPlace] at done ⊢
    exact written_of_rename formed prepared done
  · intro state _ other
    refine absurd ?_ other
    rw [← onDisk_dropLast, ← onDisk_dropLast, List.dropLast_concat, directory]
  · refine Triple.bind (Triple.attempt
      (fun disk => VaultDisk.rm disk (ctx.temporaryPlace uuid) false true) (fun _ => true)
      (fun _ _ _ given => given) (stable_means view) (fun _ => stable_means view)
      (stable_means view) ?_ (fun _ means _ => means) fun _ _ _ _ part =>
        absurd part.1 Bool.false_ne_true.symm) fun _ =>
        Triple.thrown (stable_means view)
    intro state value disk means done
    rcases VaultDisk.rm_eq_ok done with ⟨rfl, _⟩ | ⟨rfl, plain⟩
    · exact means
    · have file : state.disk.isDirectoryAt (ctx.temporaryPlace uuid) = false := by
        rw [← Bool.not_eq_true]
        exact fun kind => Bool.false_ne_true (plain kind)
      refine means.of_disk ?_ fun path directory => isDirectoryAt_without_file file directory
      rw [Posix.Disk.get_without, if_neg]
      intro inner
      refine apart (inner.eq_of_length ?_)
      simp [foldersPlace, temporaryPlace_eq]

end Parts

end VaultContext

end Kb1Daemon
