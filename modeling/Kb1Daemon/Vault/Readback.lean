import Kb1Daemon.Vault.Listing
import Kb1Daemon.Vault.Moving

/-! # Folder metadata that reads back

What a set of a folder's color leaves in `folders.yml`, and what the readers make of it. The map
that is read is an object: the name of its prototype is no entry of it, and what it inherits is
found by lookups. And a folder whose path has a lone surrogate has another name on disk. So the
readers report a color that was set, and nothing else changed, unless a name of the prototype or a
lone surrogate is in the way (`setFolderMetadata_reads_back_iff`).
-/

namespace Kb1Daemon

open JsString

/-- What the file of an object that is read says of a folder. -/
def MetadataObject.stored (object : MetadataObject) (folder : JsString) : Option FolderMetadata :=
  if folder = prototypeName then object.prototype else object.own.get folder

namespace VaultContext

variable {ctx : VaultContext}

/-- What a read of `folders.yml` gives on a disk, if it is not a directory. -/
def readMetadata (ctx : VaultContext) (disk : VaultDisk) : Option (VaultResult MetadataObject) :=
  match disk.get ctx.foldersPlace with
  | none => some (.ok .empty)
  | some (.file content ..) => some (parseFolderMetadata content)
  | some (.directory ..) => none

/-- The file of the metadata holds what is written for a map. -/
def Holding (ctx : VaultContext) (map : FolderMetadataMap) (disk : VaultDisk) : Prop :=
  ∃ mode modified, disk.get ctx.foldersPlace =
    some (.file (folderMetadataContent ctx.host map) mode modified)

/-- A root above a vault path that resolves is not the root of the file system. -/
theorem proper_of_resolved {rel : JsString} (walked : Walked rel) {place : Place}
    (resolved : resolveVaultPath ctx.cwd ctx.root rel = .ok place) : ctx.place ≠ [] := by
  intro top
  change pathResolve ctx.cwd ctx.root = [] at top
  unfold resolveVaultPath at resolved
  rw [top, resolve_of_plain walked.plain] at resolved
  split_ifs at resolved with known
  rcases known with same | ⟨other, _⟩
  · exact List.splitOn_ne_nil slash rel same
  · exact other rfl

theorem Alone.and {Value : Type} {program : VaultProgram Value}
    {ends other : Value → VaultDisk → Prop} {fails milder : VaultDisk → Prop} {disk : VaultDisk}
    (alone : Alone program ends fails disk) (also : Alone program other milder disk) :
    Alone program (fun value now => ends value now ∧ other value now)
      (fun now => fails now ∧ milder now) disk :=
  fun touched => (alone touched).and (also touched)

section Write

variable {before now : VaultDisk} {map : FolderMetadataMap}

/-- A read gives what the file says. -/
theorem alone_readMetadata :
    Alone ctx.readFolderMetadataMap
      (fun result now => before = now ∧ ctx.readMetadata before = some result) (fun _ => True)
      before := by
  unfold readFolderMetadataMap
  rcases @vaultPath_folders ctx with located | ⟨failure, refused⟩
  · rw [located, Program.done_bind]
    rintro touched _ rfl answer after given
    rcases given with ⟨value, next, ok, rfl, rfl⟩ | ⟨_, rfl, refused⟩ | ⟨_, _, _, part, _⟩
    rotate_right
    · exact part.elim
    · obtain ⟨rfl, mode, modified, found⟩ := VaultDisk.readFile_eq_ok ok
      rintro _ rfl
      refine ⟨rfl, ?_⟩
      dsimp only at found
      rw [onDisk_foldersPlace] at found
      rw [readMetadata, found]
    · rcases refused with ⟨code, absent, rfl⟩ | ⟨code, rfl⟩
      · cases code with
        | enoent =>
            rintro _ rfl
            refine ⟨rfl, ?_⟩
            rw [onDisk_foldersPlace] at absent
            rw [readMetadata, VaultDisk.get_of_readFile_enoent absent]
        | _ =>
            rintro _ rfl
            trivial
      · rintro _ rfl
        trivial
  · rw [refused]
    exact Alone.thrown trivial

/-- A write leaves its content in the file. -/
theorem alone_holding (map : FolderMetadataMap) :
    Alone (ctx.writeFolderMetadataMap map) (fun _ now => Holding ctx map now) (fun _ => True)
      before := by
  unfold writeFolderMetadataMap
  rcases @vaultPath_folders ctx with located | ⟨failure, refused⟩
  · rw [located, Program.done_bind]
    have directory : ctx.foldersPlace.dropLast = ctx.place ++ [metadataDirectory] := by
      rw [foldersPlace, List.dropLast_append_of_ne_nil (List.cons_ne_nil _ _)]
      rfl
    rw [directory]
    refine Alone.bind (fun _ _ => True)
      (Alone.attempt (fun disk => VaultDisk.mkdir disk (onDisk _)) id (fun _ _ _ given => given)
        (fun _ _ _ => trivial) trivial fun _ _ => trivial) fun _ _ _ => ?_
    refine Alone.bind (fun _ _ => True)
      (Alone.request (fun _ _ _ given => given) fun _ => trivial) fun uuid _ _ => ?_
    refine Alone.handle (fun _ => True) ?_ fun failure _ _ => ?_
    · refine Alone.bind (fun _ now => ∃ mode modified, now.get (ctx.temporaryPlace uuid) =
            some (.file (folderMetadataContent ctx.host map) mode modified))
        (Alone.attempt (fun disk => VaultDisk.putFile disk (ctx.temporaryPlace uuid) _) id
          (fun _ _ _ given => given) (fun _ next done => ?_) trivial fun _ _ => trivial)
        fun _ now written => ?_
      · refine ⟨fileMode, 0, ?_⟩
        rw [Posix.Disk.get_write (VaultDisk.putFile_eq_ok done), if_pos rfl]
      · obtain ⟨mode, modified, found⟩ := written
        refine Alone.rename (fun next done => ⟨mode, modified, ?_⟩) trivial
        rw [onDisk_foldersPlace] at done
        rw [Posix.Disk.get_rename done, if_pos (List.prefix_refl _), List.drop_length,
          List.append_nil]
        exact found
    · exact Alone.bind (fun _ _ => True)
        (Alone.attempt (fun disk => VaultDisk.rm disk (ctx.temporaryPlace uuid) false true)
          (fun _ => true) (fun _ _ _ given => given) (fun _ _ _ => trivial) trivial
          fun _ _ => trivial)
        fun _ _ _ => Alone.thrown trivial
  · rw [refused]
    exact Alone.thrown trivial

/-- The audit leaves the metadata. -/
theorem alone_audit_holding (holding : Holding ctx map now) (operation : AuditOperation)
    (entityKind : NodeKind) (path summary : JsString) :
    Alone (ctx.emitVaultAudit operation entityKind path summary)
      (fun _ now => Holding ctx map now) (fun _ => True) now := by
  unfold emitVaultAudit writeAuditEntry
  refine Alone.bind _ (Alone.request (fun _ _ _ given => given) fun _ => holding)
    fun uuid now holding => ?_
  refine Alone.bind _ (Alone.request (fun _ _ _ given => given) fun _ => holding)
    fun ts now holding => ?_
  refine Alone.bind (fun _ now => Holding ctx map now)
    (Alone.attempt (fun disk => VaultDisk.mkdir disk (onDisk _)) id (fun _ _ _ given => given)
      (fun _ next done => ?_) trivial fun _ _ => trivial) fun _ now holding => ?_
  · obtain ⟨mode, modified, found⟩ := holding
    refine ⟨mode, modified, ?_⟩
    rw [Posix.Disk.get_makeAll (VaultDisk.mkdir_eq_ok done), found]
    exact if_neg fun fresh => Option.some_ne_none _ fresh.2
  refine Alone.bind (fun _ now => Holding ctx map now)
    (Alone.attempt (fun disk => VaultDisk.putFile disk (onDisk _)
        (VaultDisk.appended (disk.get (onDisk _)) _)) _
      (fun _ _ _ given => given) (fun _ next done => ?_) trivial fun _ _ => trivial)
      fun _ now holding => Alone.done holding
  obtain ⟨mode, modified, found⟩ := holding
  refine ⟨mode, modified, ?_⟩
  rw [Posix.Disk.get_write (VaultDisk.putFile_eq_ok done), if_neg]
  · exact found
  · intro same
    have length := congrArg List.length same
    simp [foldersPlace, onDisk] at length

/-- What a set that succeeds says of the disk before and after it. -/
structure Recolored (ctx : VaultContext) (path : JsString) (input : FolderMetadataInput)
    (before now : VaultDisk) : Prop where
  proper : ctx.place ≠ []
  valid : validateVaultPath path .folder = true
  directory : before.isDirectoryAt (onDisk (ctx.placeOf path)) = true
  holding : ∃ object normalized, ctx.readMetadata before = some (.ok object) ∧
    normalizeFolderMetadataInput input = .ok normalized ∧
      Holding ctx (setMetadata object.own path
        (applyFolderMetadataInput (metadataAt object path) normalized)) now
  only : OnlyOwn ctx before now

variable {path : JsString} {input : FolderMetadataInput}

/-- The root is a directory above every folder. -/
theorem rooted_of_folder (valid : validateVaultPath path .folder = true)
    (directory : before.isDirectoryAt (onDisk (ctx.placeOf path)) = true) :
    before.isDirectoryAt ctx.place = true := by
  rw [placeOf, (walked_of_valid valid).innerNames] at directory
  obtain ⟨names, some, place, _⟩ := (inside_of_walked (walked_of_valid valid)).onDisk
  rw [namesOf, place] at directory
  obtain ⟨mode, modified, present⟩ := Posix.Disk.isDirectoryAt_iff.mp directory
  refine Posix.Disk.isDirectoryAt_above (Option.isSome_of_mem present)
    (Posix.mem_above.mpr ⟨List.prefix_append _ _, fun alike => ?_⟩)
  exact some (List.append_right_eq_self.mp alike.symm)

/-- What passes the checks of a set is a folder that is there. -/
theorem alone_checkSet :
    Alone (ctx.checkSet path input)
      (fun checked now => before = now ∧ ∀ rel normalized, checked = .ok (rel, normalized) →
        rel = path ∧ normalizeFolderMetadataInput input = .ok normalized ∧ ctx.place ≠ [] ∧
          validateVaultPath path .folder = true ∧
            before.isDirectoryAt (onDisk (ctx.placeOf path)) = true)
      (fun _ => True) before := by
  unfold checkSet
  refine Alone.bind _ (alone_validatedPath trivial) ?_
  rintro rel _ ⟨rfl, rfl, valid⟩
  have walked := walked_of_valid valid
  cases normal : normalizeFolderMetadataInput input with
  | error error => exact Alone.done ⟨rfl, nofun⟩
  | ok normalized =>
      refine Alone.bind (fun place disk => before = disk ∧ ctx.place ≠ [] ∧
          ctx.place ++ namesOf path = place)
        (Alone.vaultPath (fun place resolved => ⟨rfl, proper_of_resolved walked resolved,
          (resolveVaultPath_of_plain walked.plain resolved).symm⟩) trivial) ?_
      rintro _ _ ⟨rfl, proper, rfl⟩
      refine Alone.bind (fun stat disk => before = disk ∧
          (before.get (onDisk (ctx.place ++ namesOf path))).map VaultDisk.entryStat = stat)
        (Alone.statOrNull ⟨rfl, rfl⟩ trivial) ?_
      rintro _ _ ⟨rfl, rfl⟩
      split
      · exact Alone.done ⟨rfl, nofun⟩
      rename_i kind
      refine Alone.done ⟨rfl, ?_⟩
      rintro _ _ ⟨⟩
      refine ⟨rfl, rfl, proper, valid, ?_⟩
      rw [not_ne_iff, Option.map_map] at kind
      obtain ⟨entry, found, same⟩ := Option.map_eq_some_iff.mp kind
      rw [placeOf, walked.innerNames, Posix.Disk.isDirectoryAt, found]
      cases entry with
      | directory => rfl
      | file => cases same

/-- The section of a set writes the new map. -/
theorem alone_setSection {normalized : FolderMetadataInput}
    (rooted : before.isDirectoryAt ctx.place = true) :
    Alone (ctx.setSection path normalized)
      (fun result now => ∀ value, result = .ok value → OnlyOwn ctx before now ∧
        ∃ object, ctx.readMetadata before = some (.ok object) ∧
          Holding ctx (setMetadata object.own path
            (applyFolderMetadataInput (metadataAt object path) normalized)) now)
      (fun _ => True) before := by
  unfold setSection
  refine Alone.bind _ alone_readMetadata ?_
  rintro read _ ⟨rfl, known⟩
  cases read with
  | error error => exact Alone.done nofun
  | ok object =>
      let map := setMetadata object.own path
        (applyFolderMetadataInput (metadataAt object path) normalized)
      have writes : Alone (ctx.writeFolderMetadataMap map)
          (fun _ now => OnlyOwn ctx before now ∧ Holding ctx map now) (fun _ => True) before :=
        ((alone_writeFolderMetadataMap rooted (OnlyOwn.refl before) map).and
          (alone_holding map)).weaken (fun _ _ => id) fun _ _ => trivial
      refine Alone.bind _ writes ?_
      rintro _ now ⟨kept, holding⟩
      have audits : Alone (ctx.emitVaultAudit .write .folder path
            (units "Updated folder metadata for " ++ path))
          (fun _ now => OnlyOwn ctx before now ∧ Holding ctx map now) (fun _ => True) now :=
        ((alone_writeAuditEntry rooted kept _ _ _ _ _ _).and
          (alone_audit_holding holding _ _ _ _)).weaken (fun _ _ => id) fun _ _ => trivial
      refine Alone.bind _ audits ?_
      rintro audit last ⟨only, held⟩
      exact Alone.done fun _ _ => ⟨only, object, known, held⟩

/-- A set that succeeds has written the new map. -/
theorem alone_setFolderMetadata :
    Alone (ctx.setFolderMetadata path input)
      (fun result now => ∀ value, result = .ok value → Recolored ctx path input before now)
      (fun _ => True) before := by
  refine Alone.handle (fun _ => True) ?_ fun failure _ _ => ?_
  · refine Alone.bind _ alone_checkSet ?_
    rintro checked _ ⟨rfl, passed⟩
    cases checked with
    | error error => exact Alone.done nofun
    | ok found =>
        obtain ⟨rel, normalized⟩ := found
        obtain ⟨rfl, normal, proper, valid, directory⟩ := passed rel normalized rfl
        refine (alone_setSection (rooted_of_folder valid directory)).weaken ?_ fun _ => id
        intro result now ended value same
        obtain ⟨only, object, known, holding⟩ := ended value same
        exact ⟨proper, valid, directory, ⟨object, normalized, known, normal, holding⟩, only⟩
  · split
    · exact Alone.done nofun
    · exact Alone.thrown trivial

end Write

/-- What is to be reported of a folder after a color is set for a path. -/
def recolored (object : MetadataObject) (path : JsString) (color : Option JsString)
    (folder : JsString) : Option FolderMetadata :=
  if folder = path then (color.bind normalizeFolderMetadataColor).map fun color => ⟨some color⟩
  else object.stored folder

/-- Every reader reports this of the folders that it is about, and nothing of those without
metadata; and the path is among the folders that are listed from the root, if the depth reaches
it. -/
structure ReadsBack (tree : VaultTree) (ctx : VaultContext) (path : JsString)
    (reported : JsString → Option FolderMetadata) : Prop where
  got : ∀ folder, validateVaultPath folder .folder = true →
    tree.disk.isDirectoryAt (ctx.placeOf folder) = true →
      tree.outcome (ctx.getFolderMetadata folder) =
        .ok (.ok ⟨folder, (reported folder).getD ⟨none⟩, none⟩)
  listed : ∃ object, tree.outcome ctx.listFolderMetadata = .ok (.ok object) ∧
    ∀ folder, object.own.get folder = reported folder
  attached : ∀ under : Option JsString,
    (∀ path, under = some path → path = [] ∨ validateVaultPath path .folder = true) →
      tree.disk.isDirectoryAt (ctx.placeOf (under.getD [])) = true →
        ∀ depth cap entries, tree.outcome (ctx.listVaultTree under depth cap) = .ok (.ok entries) →
          ∀ entry ∈ entries, entry.kind = .folder → entry.metadata = reported entry.path
  shown : ∀ depth cap entries, tree.outcome (ctx.listVaultTree none depth cap) = .ok (.ok entries) →
    ((namesOf path).length : Int) ≤ depth.getD defaultDepth + 1 →
      ∃ entry ∈ entries, entry.kind = .folder ∧ entry.path = path

section Readers

variable {tree : VaultTree} {map : FolderMetadataMap} {object again : MetadataObject}
  {path : JsString} {color : Option JsString} {reported : JsString → Option FolderMetadata}

theorem own_prototypeName (formed : FormedMetadata map) : map.get prototypeName = none := by
  cases found : map.get prototypeName with
  | none => rfl
  | some metadata => exact absurd rfl (formed.of_get found).2.1

theorem normalized_color {normalized : FolderMetadataInput}
    (normal : normalizeFolderMetadataInput ⟨some color⟩ = .ok normalized) :
    normalized = ⟨some (color.bind normalizeFolderMetadataColor)⟩ := by
  unfold normalizeFolderMetadataInput at normal
  cases color with
  | none =>
      cases normal
      rfl
  | some color =>
      dsimp only at normal
      rw [Option.bind_some]
      cases found : normalizeFolderMetadataColor color with
      | none =>
          rw [found] at normal
          cases normal
      | some normalColor =>
          rw [found] at normal
          cases normal
          rfl

/-- The map that a set of a color writes has the color at the path, unless that is the name of the
prototype. -/
theorem get_setMetadata (formed : FormedMetadata object.own) (folder : JsString) :
    (setMetadata object.own path ⟨color.bind normalizeFolderMetadataColor⟩).get folder =
      if folder = prototypeName then none else recolored object path color folder := by
  unfold recolored MetadataObject.stored setMetadata assignMetadata isEmptyMetadata
  have absent := own_prototypeName formed
  cases color.bind normalizeFolderMetadataColor with
  | none =>
      dsimp only
      rw [if_pos Option.isNone_none, Table.get_delete]
      by_cases proto : folder = prototypeName
      · rw [if_pos proto, proto, absent, ite_self]
      · rw [if_neg proto, if_neg proto]
        rfl
  | some normal =>
      dsimp only
      rw [if_neg (by rw [Option.isNone_some]; exact Bool.false_ne_true)]
      by_cases proto : folder = prototypeName
      · rw [if_pos proto, proto]
        split_ifs with own
        · exact absent
        · rw [Table.get_set, if_neg (Ne.symm own)]
          exact absent
      · rw [if_neg proto, if_neg proto]
        split_ifs with own named
        · exact absurd (named.trans own) proto
        · rfl
        · rw [Table.get_set, if_pos ‹_›]
          rfl
        · rw [Table.get_set, if_neg ‹_›]

theorem formedMetadata_recolored (formed : FormedMetadata object.own)
    (valid : validateVaultPath path .folder = true) :
    FormedMetadata (setMetadata object.own path ⟨color.bind normalizeFolderMetadataColor⟩) := by
  unfold setMetadata assignMetadata
  split_ifs with empty proto
  · exact formed.within (Table.within_delete object.own path)
  · exact formed
  · cases found : color.bind normalizeFolderMetadataColor with
    | none =>
        rw [found] at empty
        exact absurd rfl empty
    | some normal =>
        obtain ⟨given, _, normalized⟩ := Option.bind_eq_some_iff.mp found
        exact formed.set valid proto rfl (normalColor_of_normalize normalized)

/-- What is written for a map is read as its own entries. -/
theorem reads_holding (proper : ctx.place ≠ []) (formed : FormedMetadata map)
    (holding : Holding ctx map tree.disk) :
    ∃ again, tree.Reads ctx.readFolderMetadataMap (.ok (.ok again)) ∧ again.prototype = none ∧
      ∀ folder, again.own.get folder = map.get folder := by
  obtain ⟨mode, modified, found⟩ := holding
  obtain ⟨again, read, plain, same⟩ := parseFolderMetadata_folderMetadataContent formed ctx.host
  have located : ctx.vaultPath folderMetadataRelativePath = .done ctx.foldersPlace := by
    apply vaultPath_of_resolved
    unfold resolveVaultPath
    rw [resolve_of_plain plain_folderMetadataRelativePath,
      if_pos (.inr ⟨proper, List.prefix_append _ _⟩), folderMetadataRelativePath_splitOn]
    rfl
  refine ⟨again, ?_, plain, fun folder => ?_⟩
  · unfold readFolderMetadataMap
    rw [located, Program.done_bind]
    refine @Program.Gives.call _ _ _ _ _ _ _ _ _ (.ok (folderMetadataContent ctx.host map)) _ ?_ ?_
    · simp only [FsCall.perform, onDisk_foldersPlace, VaultDisk.readFile, found, carryOut, id]
    · dsimp only
      rw [read]
      exact .done _
  · rw [← metadataView_namesOf, same, metadataView_namesOf]

theorem reads_getFolderMetadata (proper : ctx.place ≠ []) {folder : JsString}
    (valid : validateVaultPath folder .folder = true)
    (directory : tree.disk.isDirectoryAt (ctx.placeOf folder) = true)
    (reads : tree.Reads ctx.readFolderMetadataMap (.ok (.ok again))) :
    tree.Reads (ctx.getFolderMetadata folder)
      (.ok (.ok ⟨folder, metadataAt again folder, none⟩)) := by
  obtain ⟨mode, modified, found⟩ := Posix.Disk.isDirectoryAt_iff.mp directory
  refine VaultTree.reads_classified ?_
  have located : tree.Reads (ctx.folderAt folder) (.ok (.ok (folder, ctx.placeOf folder))) := by
    unfold folderAt
    rw [validatedPath_of_valid valid, Program.done_bind,
      vaultPath_of_walked proper (walked_of_valid valid), Program.done_bind]
    exact (VaultTree.reads_statOrNull found).bind (.done _)
  exact located.bind (reads.bind (.done _))

/-- What is attached to a folder is what is found under its path. -/
theorem metadata_of_mem_attached {entries : List WalkedEntry} {entry : WalkedEntry}
    (member : entry ∈ attachFolderMetadata entries again) (folder : entry.kind = .folder) :
    entry.metadata = again.lookup entry.path ∧
      ∃ walked ∈ entries, walked.kind = .folder ∧ walked.path = entry.path := by
  obtain ⟨walked, listed, rfl⟩ := List.mem_map.mp member
  split_ifs at folder ⊢ with kind
  · exact ⟨rfl, walked, listed, kind, rfl⟩
  · exact absurd folder kind

/-- A folder that is listed is a directory at its path. -/
theorem directory_of_mem_listing {levels : Nat} {relDir : JsString}
    (walked : relDir = [] ∨ Walked relDir) {listed : WalkedEntry}
    (member : listed ∈ listing tree ctx levels relDir) (folder : listed.kind = .folder) :
    tree.disk.isDirectoryAt (ctx.place ++ namesOf listed.path) = true := by
  obtain ⟨names, entry, some, _, _, found, rfl⟩ := (mem_listing walked).mp member
  rw [placeOf, List.append_assoc] at found ⊢
  rw [namesOf_walkedOf (List.append_ne_nil_of_right_ne_nil _ some) found, Posix.Disk.isDirectoryAt,
    found]
  cases entry with
  | directory => rfl
  | file => cases folder

/-- The names that are inherited are names of folders. -/
theorem inheritedNames_plain : ∀ name ∈ MetadataObject.inheritedNames,
    namesOf name = [name] ∧ isInternalSegment name = false ∧ name ≠ metadataDirectory := by
  decide +kernel

theorem lookup_inherited {name : JsString} (inherited : name ∈ MetadataObject.inheritedNames)
    (absent : again.own.get name = none) : again.lookup name ≠ none := by
  unfold MetadataObject.lookup
  rw [absent]
  dsimp only
  split_ifs with proto named
  · exact Option.some_ne_none _
  · exact Option.some_ne_none _
  · exact absurd (.inl inherited) named

theorem lookup_eq_own (plain : again.prototype = none) {name : JsString}
    (apart : again.own.get name = none → name ∉ MetadataObject.inheritedNames) :
    again.lookup name = again.own.get name := by
  unfold MetadataObject.lookup
  cases found : again.own.get name with
  | some metadata => rfl
  | none =>
      have other := apart found
      dsimp only
      rw [if_neg, if_neg]
      · rintro (inherited | ⟨present, _⟩)
        · exact other inherited
        · rw [plain] at present
          cases present
      · rintro rfl
        exact other (by decide +kernel)

theorem placeOf_nil : ctx.placeOf [] = ctx.place := by
  rw [placeOf, innerNames, if_pos rfl, List.append_nil]

/-- A folder that the depth reaches is a row of the root. -/
theorem row_of_directory {levels : Nat} {folder : JsString}
    (external : ∀ name ∈ namesOf folder, isInternalSegment name = false)
    (few : (namesOf folder).length ≤ levels)
    (directory : tree.disk.isDirectoryAt (ctx.place ++ namesOf folder) = true) :
    ∃ row ∈ listing tree ctx levels [], row.kind = .folder ∧ row.path = folder := by
  obtain ⟨mode, modified, found⟩ := Posix.Disk.isDirectoryAt_iff.mp directory
  refine ⟨ctx.walkedOf (ctx.place ++ namesOf folder, .directory mode modified), ?_, rfl, ?_⟩
  · refine (mem_listing (.inl rfl)).mpr
      ⟨_, .directory mode modified, List.splitOn_ne_nil slash folder, few, external, ?_, ?_⟩
    · rw [placeOf_nil]
      exact found
    · rw [placeOf_nil]
      rfl
  · exact namesOf_injective (namesOf_walkedOf (List.splitOn_ne_nil slash folder) found)

/-- The root is listed under a cap that is high enough. -/
theorem lists_root (proper : ctx.place ≠ []) (rooted : tree.disk.isDirectoryAt ctx.place = true)
    (reads : tree.Reads ctx.readFolderMetadataMap (.ok (.ok again))) (depth : Int) :
    ∃ cap, tree.outcome (ctx.listVaultTree none (some depth) (some cap)) =
      .ok (.ok (attachFolderMetadata (listing tree ctx (depth + 1).toNat []) again)) := by
  refine ⟨((listing tree ctx (depth + 1).toNat []).length : Int) + 1, ?_⟩
  have lists := @reads_listVaultTree tree ctx proper none (by rintro _ ⟨⟩)
    (by rw [Option.getD_none, placeOf_nil]; exact rooted) (some depth)
    (some ((listing tree ctx (depth + 1).toNat []).length + 1)) _ reads (by rintro _ ⟨⟩)
  change tree.Reads _ (VaultContext.listed ((listing tree ctx (depth + 1).toNat []).length + 1)
    (listing tree ctx (depth + 1).toNat []) _) at lists
  rw [VaultContext.listed, if_neg (by omega)] at lists
  exact lists.outcome_eq

/-- A folder in the root is listed, with what is found under its name. -/
theorem listed_in_root (proper : ctx.place ≠ []) (rooted : tree.disk.isDirectoryAt ctx.place = true)
    (reads : tree.Reads ctx.readFolderMetadataMap (.ok (.ok again))) {name : JsString}
    (alone : namesOf name = [name]) (external : isInternalSegment name = false)
    (directory : tree.disk.isDirectoryAt (ctx.place ++ [name]) = true) :
    ∃ depth cap entries, tree.outcome (ctx.listVaultTree none depth cap) = .ok (.ok entries) ∧
      ∃ entry ∈ entries, entry.kind = .folder ∧ entry.path = name ∧
        entry.metadata = again.lookup name := by
  rw [← alone] at directory
  obtain ⟨cap, lists⟩ := lists_root proper rooted reads 0
  obtain ⟨row, member, kind, path⟩ := @row_of_directory _ _ ((0 : Int) + 1).toNat _
    (by rw [alone]; exact fun segment only => List.mem_singleton.mp only ▸ external)
    (by rw [alone]; exact Nat.le_refl _) directory
  refine ⟨_, _, _, lists, { row with metadata := again.lookup name }, ?_, kind, path, rfl⟩
  refine List.mem_map.mpr ⟨row, member, ?_⟩
  rw [if_pos kind, path]

/-- A folder that is listed under its path has no lone surrogate there. -/
theorem encodes_of_shown (proper : ctx.place ≠ [])
    (rooted : tree.disk.isDirectoryAt ctx.place = true)
    (reads : tree.Reads ctx.readFolderMetadataMap (.ok (.ok again)))
    (back : ReadsBack tree ctx path reported) : Utf8.isWellFormed path = true := by
  obtain ⟨cap, lists⟩ := lists_root proper rooted reads (namesOf path).length
  obtain ⟨entry, member, folder, same⟩ := back.shown _ _ _ lists (by rw [Option.getD_some]; omega)
  obtain ⟨_, row, listed, kind, named⟩ := metadata_of_mem_attached member folder
  have there := directory_of_mem_listing (.inl rfl) listed kind
  rw [named, same] at there
  obtain ⟨mode, modified, found⟩ := Posix.Disk.isDirectoryAt_iff.mp there
  have known := VaultTree.onDisk_of_get found
  rw [onDisk_append] at known
  refine onDisk_namesOf_iff.mp (List.append_cancel_left (known.symm.trans ?_)).symm
  exact congrArg (· ++ _) ctx.known

/-- A folder without a lone surrogate in its path is listed. -/
theorem shown_of_encodes (proper : ctx.place ≠ [])
    (rooted : tree.disk.isDirectoryAt ctx.place = true)
    (reads : tree.Reads ctx.readFolderMetadataMap (.ok (.ok again)))
    (valid : validateVaultPath path .folder = true) (encodes : Utf8.isWellFormed path = true)
    (directory : tree.disk.isDirectoryAt (onDisk (ctx.placeOf path)) = true)
    {depth cap : Option Int} {entries : List WalkedEntry}
    (outcome : tree.outcome (ctx.listVaultTree none depth cap) = .ok (.ok entries))
    (few : ((namesOf path).length : Int) ≤ depth.getD defaultDepth + 1) :
    ∃ entry ∈ entries, entry.kind = .folder ∧ entry.path = path := by
  have walked := walked_of_valid valid
  rw [placeOf, walked.innerNames, onDisk_placed encodes] at directory
  have lists := @reads_listVaultTree tree ctx proper none (by rintro _ ⟨⟩)
    (by rw [Option.getD_none, placeOf_nil]; exact rooted) depth cap _ reads (by rintro _ ⟨⟩)
  rw [lists.outcome_eq, VaultContext.listed] at outcome
  split_ifs at outcome
  · cases outcome
  cases outcome
  obtain ⟨row, member, kind, named⟩ := @row_of_directory _ _ (depth.getD defaultDepth + 1).toNat _
    walked.external (by omega) directory
  refine ⟨{ row with metadata := again.lookup row.path }, List.mem_map.mpr ⟨row, member, ?_⟩, kind,
    named⟩
  rw [if_pos kind]

/-- Readers of a map without a prototype report what they should unless the path has a lone
surrogate, the name of the prototype has metadata, or a folder without metadata has an inherited
name. -/
theorem readsBack_iff (proper : ctx.place ≠ []) (rooted : tree.disk.isDirectoryAt ctx.place = true)
    (valid : validateVaultPath path .folder = true)
    (directory : tree.disk.isDirectoryAt (onDisk (ctx.placeOf path)) = true)
    (reads : tree.Reads ctx.readFolderMetadataMap (.ok (.ok again)))
    (plain : again.prototype = none)
    (same : ∀ folder, again.own.get folder =
      if folder = prototypeName then none else reported folder) :
    ReadsBack tree ctx path reported ↔ Utf8.isWellFormed path = true ∧
      reported prototypeName = none ∧ ∀ name ∈ MetadataObject.inheritedNames, reported name = none →
        tree.disk.isDirectoryAt (ctx.place ++ [name]) = false := by
  have lists : tree.Reads ctx.listFolderMetadata (.ok (.ok again)) := reads
  constructor
  · intro back
    refine ⟨encodes_of_shown proper rooted reads back, ?_, ?_⟩
    · obtain ⟨object, outcome, agree⟩ := back.listed
      rw [lists.outcome_eq] at outcome
      cases outcome
      rw [← agree, same, if_pos rfl]
    · intro name inherited unreported
      obtain ⟨alone, external, _⟩ := inheritedNames_plain name inherited
      rw [← Bool.not_eq_true]
      intro directory
      obtain ⟨depth, cap, entries, outcome, entry, member, folder, path, found⟩ :=
        listed_in_root proper rooted reads alone external directory
      have top : tree.disk.isDirectoryAt (ctx.placeOf ((none : Option JsString).getD [])) =
          true := by
        rw [placeOf, innerNames, Option.getD_none, if_pos rfl, List.append_nil]
        exact rooted
      have attached := back.attached none (by rintro _ ⟨⟩) top depth cap entries outcome entry
        member folder
      rw [found, path, unreported] at attached
      refine lookup_inherited inherited ?_ attached
      rw [same, unreported, ite_self]
  · rintro ⟨encodes, unnamed, apart⟩
    have agree : ∀ folder, again.own.get folder = reported folder := by
      intro folder
      rw [same]
      split_ifs with proto
      · rw [proto, unnamed]
      · rfl
    constructor
    case got =>
      intro folder valid directory
      rw [(reads_getFolderMetadata proper valid directory reads).outcome_eq, ← agree]
      by_cases proto : folder = prototypeName
      · rw [proto, metadataAt, MetadataObject.lookup, agree, unnamed]
        dsimp only
        rw [if_pos rfl, plain]
        rfl
      · rw [metadataAt_of_ne proto]
    case listed => exact ⟨again, lists.outcome_eq, agree⟩
    case shown =>
      exact fun depth cap entries outcome few =>
        shown_of_encodes proper rooted reads valid encodes directory outcome few
    case attached =>
      intro under valid directory depth cap entries outcome entry member folder
      have walked := walked_of_optional valid
      have whole := reads_listVaultTree proper valid directory depth cap reads (by rintro _ ⟨⟩)
      rw [whole.outcome_eq, VaultContext.listed] at outcome
      split_ifs at outcome
      · cases outcome
      cases outcome
      obtain ⟨metadata, row, listed, kind, path⟩ := metadata_of_mem_attached member folder
      rw [metadata, ← agree]
      refine lookup_eq_own plain fun absent inherited => ?_
      have there := directory_of_mem_listing walked listed kind
      rw [path, (inheritedNames_plain _ inherited).1] at there
      rw [agree] at absent
      rw [apart _ inherited absent] at there
      cases there

end Readers

/-- **Set colors read back.** After a set of a color, the readers report the color for the path,
what was stored for every other folder, and nothing for folders without metadata, exactly when the
path has no lone surrogate, the name of the prototype has no metadata and no folder that is there
without metadata has a name that an object inherits. -/
theorem setFolderMetadata_reads_back_iff {path : JsString} {color : Option JsString}
    {before : VaultState} {value : FolderMetadataValue} {tree : VaultTree} {touched : Bool}
    (run : (ctx.setFolderMetadata path ⟨some color⟩).Runs (FsCall.answers false fun _ => false)
      before (.ok (.ok value)) ⟨tree.disk, touched⟩)
    {object : MetadataObject} (stored : ctx.readMetadata before.disk = some (.ok object)) :
    ReadsBack tree ctx path (recolored object path color) ↔ Utf8.isWellFormed path = true ∧
      recolored object path color prototypeName = none ∧
        ∀ name ∈ MetadataObject.inheritedNames, recolored object path color name = none →
          before.disk.isDirectoryAt (ctx.place ++ [name]) = false := by
  have written := (Program.Secure.runs (fun _ => rfl) (alone_setFolderMetadata before.touched)
    run).1 _ rfl value rfl
  obtain ⟨known, normalized, read, normal, holding⟩ := written.holding
  rw [stored] at read
  cases read
  rw [normalized_color normal] at holding
  have formed : FormedMetadata object.own := by
    unfold readMetadata at stored
    split at stored
    · cases stored
      exact formedMetadata_empty
    · exact formedMetadata_of_parse (Option.some.inj stored)
    · cases stored
  obtain ⟨again, reads, plain, same⟩ := reads_holding written.proper
    (formedMetadata_recolored formed written.valid) holding
  have rooted : tree.disk.isDirectoryAt ctx.place = true :=
    written.only.rooted (rooted_of_folder written.valid written.directory)
  have directory : tree.disk.isDirectoryAt (onDisk (ctx.placeOf path)) = true := by
    have outside := Sited.not_own (@inside_of_walked ctx path (walked_of_valid written.valid)).onDisk []
    have there := written.directory
    rw [placeOf, (walked_of_valid written.valid).innerNames] at there ⊢
    rw [List.append_nil] at outside
    exact (congrArg (Option.any Posix.Entry.isDirectory) (written.only _ outside)).trans there
  rw [readsBack_iff written.proper rooted written.valid directory reads plain fun folder =>
    (same folder).trans (get_setMetadata formed folder)]
  refine and_congr_right fun _ => and_congr_right fun _ =>
    forall₂_congr fun name inherited => imp_congr_right fun _ => ?_
  rw [Posix.Disk.isDirectoryAt, Posix.Disk.isDirectoryAt, written.only]
  rw [List.prefix_append_right_inj]
  rintro ⟨rest, same⟩
  exact (inheritedNames_plain name inherited).2.2 (List.cons.inj same).1.symm

end VaultContext

open VaultContext

namespace ReadbackSample

/-- A vault with one folder. -/
def folderDisk (path : JsString) : VaultDisk :=
  ((plainVault.makeVaultFolder path).run (FsCall.perform fun _ => false) ⟨bareDisk, false⟩).2.disk

/-- The folder is colored red. -/
def painted (path : JsString) :
    Except VaultFailure (VaultResult FolderMetadataValue) × VaultState :=
  (plainVault.setFolderMetadata path red).run (FsCall.perform fun _ => false)
    ⟨folderDisk path, false⟩

def folderTree : VaultTree where
  disk := (painted (units "a")).2.disk
  unique := by
    unfold Table.Unique
    decide +kernel
  plain := by
    unfold PlainSegment
    decide +kernel
  known := by decide +kernel

def prototypeTree : VaultTree where
  disk := (painted prototypeName).2.disk
  unique := by
    unfold Table.Unique
    decide +kernel
  plain := by
    unfold PlainSegment
    decide +kernel
  known := by decide +kernel

/-- The runs succeed. -/
theorem runs_painted {path : JsString}
    (checked : (plainVault.setFolderMetadata path red).runCheck (FsCall.perform fun _ => false)
      (FsCall.good false) ⟨folderDisk path, false⟩ = true)
    (done : ((painted path).1.toOption.bind Except.toOption).isSome = true) :
    ∃ value, (plainVault.setFolderMetadata path red).Runs (FsCall.answers false fun _ => false)
      ⟨folderDisk path, false⟩ (.ok (.ok value)) (painted path).2 := by
  obtain ⟨value, same⟩ := ok_of_isSome (painted path).1 done
  have run := MoveSample.runs_performed (plainVault.setFolderMetadata path red)
    ⟨folderDisk path, false⟩ checked
  change Program.Runs _ _ _ (painted path).1 (painted path).2 at run
  rw [same] at run
  exact ⟨value, run⟩

end ReadbackSample

open ReadbackSample

/-- The color of a folder is read back. -/
theorem setFolderMetadata_reads_back_folder :
    ReadsBack folderTree plainVault (units "a")
      (recolored .empty (units "a") (some (units "#ff0000"))) := by
  obtain ⟨value, run⟩ := @runs_painted (units "a") (by decide +kernel) (by decide +kernel)
  exact (setFolderMetadata_reads_back_iff run (by decide +kernel)).mpr
    ⟨by decide +kernel, by decide +kernel, by decide +kernel⟩

/-- A color that is set for the name of the prototype is not read back. -/
theorem setFolderMetadata_not_read_back :
    ¬ ∀ (ctx : VaultContext) (path : JsString) (color : Option JsString) (before : VaultState)
      (value : FolderMetadataValue) (tree : VaultTree) (touched : Bool) (object : MetadataObject),
      (ctx.setFolderMetadata path ⟨some color⟩).Runs (FsCall.answers false fun _ => false)
        before (.ok (.ok value)) ⟨tree.disk, touched⟩ →
      ctx.readMetadata before.disk = some (.ok object) →
        ReadsBack tree ctx path (recolored object path color) := by
  intro claimed
  obtain ⟨value, run⟩ := @runs_painted prototypeName (by decide +kernel) (by decide +kernel)
  obtain ⟨object, outcome, same⟩ := (claimed plainVault prototypeName (some (units "#ff0000")) _
    value prototypeTree _ .empty run (by decide +kernel)).listed
  have read : ((prototypeTree.outcome plainVault.listFolderMetadata).toOption.bind
      Except.toOption).map (fun object => object.own.get prototypeName) = some none := by
    decide +kernel
  have reported : (recolored .empty prototypeName (some (units "#ff0000")) prototypeName).isSome =
      true := by decide +kernel
  rw [outcome] at read
  have absent : object.own.get prototypeName = none := Option.some.inj read
  rw [← same, absent] at reported
  cases reported

end Kb1Daemon
