import Kb1Daemon.Vault.Search

/-! # Vault operations stay in the vault

Every path that an operation passes to the file system is at or below the root and off the
internals of the vault, or one of the vault's own locations; the root itself is only looked at,
listed or made (`vault_contained`). What is listed has no internal segment.
-/

namespace Kb1Daemon

open JsString

/-- The operations of the vault's core, with their inputs. -/
inductive CoreOperation where
  | getVaultInfo
  | listVaultTree (under : Option JsString) (depth entryCap : Option Int)
  | getFolderMetadata (folderPath : JsString)
  | listFolderMetadata
  | setFolderMetadata (folderPath : JsString) (input : FolderMetadataInput)
  | readVaultFile (filePath : JsString)
  | readVaultRawFile (filePath : JsString)
  | writeVaultFile (path content : JsString) (overwrite : Bool)
  | writeVaultRawFile (path : JsString) (bytes : List UInt8) (overwrite : Bool)
  | makeVaultFolder (folderPath : JsString)
  | deleteVaultFile (path : JsString) (permanent : Bool)
  | deleteVaultFolder (path : JsString) (recursive permanent : Bool)
  | moveVaultPath (fromPath toPath : JsString) (folder overwrite : Bool)
  | searchVaultFiles (levels : Nat) (input : SearchInput)

namespace CoreOperation

/-- The paths that an operation lists. -/
def listed (ctx : VaultContext) : CoreOperation → VaultProgram (List JsString)
  | getVaultInfo => do
      let _ ← ctx.getVaultInfo
      return []
  | listVaultTree under depth entryCap => do
      match ← ctx.listVaultTree under depth entryCap with
      | .error _ => return []
      | .ok entries => return entries.map WalkedEntry.path
  | getFolderMetadata folderPath => do
      let _ ← ctx.getFolderMetadata folderPath
      return []
  | listFolderMetadata => do
      let _ ← ctx.listFolderMetadata
      return []
  | setFolderMetadata folderPath input => do
      let _ ← ctx.setFolderMetadata folderPath input
      return []
  | readVaultFile filePath => do
      let _ ← ctx.readVaultFile filePath
      return []
  | readVaultRawFile filePath => do
      let _ ← ctx.readVaultRawFile filePath
      return []
  | writeVaultFile path content overwrite => do
      let _ ← ctx.writeVaultFile path content overwrite
      return []
  | writeVaultRawFile path bytes overwrite => do
      let _ ← ctx.writeVaultRawFile path bytes overwrite
      return []
  | makeVaultFolder folderPath => do
      let _ ← ctx.makeVaultFolder folderPath
      return []
  | deleteVaultFile path permanent => do
      let _ ← ctx.deleteVaultFile path permanent
      return []
  | deleteVaultFolder path recursive permanent => do
      let _ ← ctx.deleteVaultFolder path recursive permanent
      return []
  | moveVaultPath fromPath toPath folder overwrite => do
      let _ ← ctx.moveVaultPath fromPath toPath folder overwrite
      return []
  | searchVaultFiles levels input => do
      let result ← ctx.searchVaultFiles levels input
      return result.results.map SearchHit.path

/-- The path that an operation takes to the trash. -/
def Trashes (path : JsString) : CoreOperation → Prop
  | deleteVaultFile own permanent => own = path ∧ permanent = false
  | deleteVaultFolder own _ permanent => own = path ∧ permanent = false
  | _ => False

end CoreOperation

/-- The call only looks at its path, or makes a directory there unless there is one. -/
def FsCall.Looks {Answer : Type} : FsCall Answer → Prop
  | .stat _ => True
  | .readdir _ => True
  | .mkdir _ => True
  | _ => False

namespace VaultContext

variable (ctx : VaultContext)

/-- The place is strictly below the root, and no name below the root is internal. -/
def Inside (place : Place) : Prop :=
  ∃ names, names ≠ [] ∧ place = ctx.place ++ names ∧ ∀ name ∈ names, isInternalSegment name = false

/-- The locations that are the vault's own. -/
inductive Own (operation : CoreOperation) : Place → Prop where
  | directory : Own operation (ctx.place ++ [metadataDirectory])
  | folders : Own operation (ctx.place ++ [metadataDirectory, units "folders.yml"])
  | temporary (uuid : PlainText) :
      Own operation (ctx.place ++ [metadataDirectory, temporaryName ctx.pid uuid])
  | audit : Own operation (ctx.place ++ [metadataDirectory, units "audit"])
  | changes :
      Own operation (ctx.place ++ [metadataDirectory, units "audit", units "changes.jsonl"])
  | trash {path : JsString} (trashes : operation.Trashes path)
      (valid : validateVaultPath path .folder = true) (deletedAt uuid : PlainText) {front : Place}
      (above : front = path.splitOn slash ∨ front = (path.splitOn slash).dropLast) :
      Own operation (ctx.place ++ [metadataDirectory, trashName, batchId deletedAt uuid] ++ front)

/-- Every path of the call is inside the vault or one of its own locations, or it is the root and
only looked at. -/
def Contained (operation : CoreOperation) {Answer : Type} (request : FsCall Answer) : Prop :=
  ∀ path ∈ request.paths,
    ctx.Inside path ∨ ctx.Own operation path ∨ (path = ctx.place ∧ request.Looks)

end VaultContext

/-- No segment of the path is internal. -/
def External (path : JsString) : Prop :=
  ∀ segment ∈ path.splitOn slash, isInternalSegment segment = false

/-- A path of plain segments that are not internal. -/
structure Walked (path : JsString) : Prop where
  plain : ∀ segment ∈ path.splitOn slash, PlainSegment segment
  external : External path

/-- A path that the check accepts has proper names, none of which is internal. -/
theorem walked_of_valid {path : JsString} {kind : VaultPathKind}
    (valid : validateVaultPath path kind = true) : Walked path := by
  obtain ⟨_, _, _, _, _, segments, _⟩ := validateVaultPath_iff.mp valid
  refine ⟨fun segment member => plainSegment_of_valid (segments segment member), ?_⟩
  intro segment member
  have own := segments segment member
  rw [validSegment, Bool.and_eq_true, Bool.not_eq_true'] at own
  exact own.2

/-- A path is external exactly when the source's own test does not call it internal. -/
theorem external_iff {path : JsString} : External path ↔ isInternalVaultPath path = false := by
  unfold External isInternalVaultPath
  rw [Bool.and_eq_false_imp, List.any_eq_false]
  simp only [Bool.not_eq_true', List.isEmpty_eq_false_iff, Bool.not_eq_true]
  constructor
  · exact fun external _ => external
  · intro external
    by_cases empty : path = []
    · subst empty
      decide
    · exact external empty

/-- The path of an entry of a walked directory. -/
theorem walked_entry {relDir : JsString} (walked : relDir = [] ∨ Walked relDir) (name : EntryName)
    (external : isInternalVaultPath
      (if relDir = [] then name.text else posixJoin [relDir, name.text]) = false) :
    Walked (if relDir = [] then name.text else posixJoin [relDir, name.text]) := by
  have own : name.text.splitOn slash = [name.text] := List.splitOn_eq_singleton name.plain
  refine ⟨?_, external_iff.mpr external⟩
  rcases walked with rfl | walked
  · rw [if_pos rfl, own]
    intro segment member
    rw [List.mem_singleton.mp member]
    exact name.named
  · have some : relDir ≠ [] := by
      rintro rfl
      exact (walked.plain [] (by rw [List.splitOn_nil]; exact List.mem_cons_self)).1 rfl
    have plain : ∀ part ∈ [relDir, name.text], ∀ segment ∈ part.splitOn slash,
        PlainSegment segment := by
      intro part member
      rcases List.mem_cons.mp member with rfl | last
      · exact walked.plain
      · rw [List.mem_singleton.mp last, own]
        intro segment member
        rw [List.mem_singleton.mp member]
        exact name.named
    rw [if_neg some, splitOn_posixJoin (List.cons_ne_nil _ _) plain]
    intro segment member
    obtain ⟨part, listed, inner⟩ := List.mem_flatMap.mp member
    exact plain part listed segment inner

section Rules

variable {allowed : ∀ {Answer : Type}, FsCall Answer → Prop} {Value : Type}

/-- An attempted call asks for nothing but the call. -/
theorem meets_attempt {call : FsCall (Except FsCode Value)} (permitted : allowed call) :
    (attempt call).Meets allowed fun _ => True := by
  refine ⟨permitted, fun answer => ?_⟩
  cases answer <;> trivial

/-- A request asks for nothing but its call. -/
theorem meets_request {call : FsCall Value} (permitted : allowed call) :
    (request call).Meets allowed fun _ => True := ⟨permitted, fun _ => trivial⟩

/-- A look whose failure counts as absence asks for one stat. -/
theorem meets_statOrNull {path : Place} (permitted : allowed (.stat path)) :
    (statOrNull path).Meets allowed fun _ => True := by
  refine ⟨permitted, fun answer => ?_⟩
  rcases answer with code | stat
  · cases code <;> trivial
  · trivial

/-- The test for existence asks for one stat. -/
theorem meets_pathExists {path : Place} (permitted : allowed (.stat path)) :
    (pathExists path).Meets allowed fun _ => True :=
  (meets_statOrNull permitted).bind fun _ _ => trivial

/-- The check of a path asks for nothing and gives the path it was handed. -/
theorem meets_validatedPath (input : JsString) (kind : VaultPathKind) :
    (validatedPath input kind).Meets allowed
      fun rel => rel = input ∧ validateVaultPath input kind = true := by
  unfold validatedPath
  cases refused : invalidPathReason input kind with
  | some reason => trivial
  | none => exact ⟨rfl, invalidPathReason_eq_none_iff.mp refused⟩

/-- A start that is left out is the root; one that is given has been checked. -/
theorem meets_validatedOptionalPath (input : Option JsString) (kind : VaultPathKind) :
    (validatedOptionalPath input kind).Meets allowed fun rel => rel = [] ∨ Walked rel := by
  rcases input with _ | _ | ⟨unit, rest⟩
  · exact .inl rfl
  · exact .inl rfl
  · exact (meets_validatedPath _ _).weaken fun rel valid => .inr (by
      rw [valid.1]
      exact walked_of_valid valid.2)

/-- Turning failures into results asks for no further call. -/
theorem meets_classified {classify : VaultFailure → Option VaultError}
    {program : VaultProgram (VaultResult Value)} {ends : VaultResult Value → Prop}
    (meets : program.Meets allowed ends) (failed : ∀ error, ends (.error error)) :
    (classified classify program).Meets allowed ends := by
  refine meets.handle fun failure => ?_
  cases classify failure with
  | none => trivial
  | some error => exact failed error

/-- A path with plain names resolves to these names below the root. -/
theorem meets_vaultPath (ctx : VaultContext) {relPath : JsString}
    (plain : ∀ segment ∈ relPath.splitOn slash, PlainSegment segment) :
    (ctx.vaultPath relPath).Meets allowed
      fun place => place = ctx.place ++ relPath.splitOn slash := by
  unfold VaultContext.vaultPath
  cases resolved : resolveVaultPath ctx.cwd ctx.root relPath with
  | error failure => trivial
  | ok place => exact resolveVaultPath_of_plain plain resolved

end Rules

namespace VaultContext

variable {ctx : VaultContext} {operation : CoreOperation}

/-- A call on places inside the root is contained. -/
theorem contained_of_inside {Answer : Type} {call : FsCall Answer}
    (inside : ∀ path ∈ call.paths, ctx.Inside path) : ctx.Contained operation call :=
  fun path listed => .inl (inside path listed)

/-- A call on the places that the operation has for itself is contained. -/
theorem contained_of_own {Answer : Type} {call : FsCall Answer}
    (own : ∀ path ∈ call.paths, ctx.Own operation path) : ctx.Contained operation call :=
  fun path listed => .inr (.inl (own path listed))

/-- The names of a checked path lead to a place inside the root. -/
theorem inside_of_walked {rel : JsString} (walked : Walked rel) :
    ctx.Inside (ctx.place ++ rel.splitOn slash) :=
  ⟨_, List.splitOn_ne_nil slash rel, rfl, walked.external⟩

/-- What is inside stays inside on disk. -/
theorem Inside.onDisk {place : Place} (inside : ctx.Inside place) : ctx.Inside (onDisk place) := by
  obtain ⟨names, some, rfl, external⟩ := inside
  refine ⟨Kb1Daemon.onDisk names, ?_, ?_, fun name listed => ?_⟩
  · rwa [ne_eq, Kb1Daemon.onDisk, List.map_eq_nil_iff]
  · rw [onDisk_append]
    exact congrArg (· ++ _) ctx.known
  · obtain ⟨text, member, rfl⟩ := List.mem_map.mp listed
    rw [isInternalSegment_toWellFormed]
    exact external text member

/-- The directory of a place inside is inside, or it is the root. -/
theorem contained_parent {place : Place} (inside : ctx.Inside place) :
    ctx.Contained operation (.mkdir place.dropLast) := by
  obtain ⟨names, some, rfl, external⟩ := inside
  intro path listed
  rw [List.mem_singleton.mp listed, List.dropLast_append_of_ne_nil some]
  by_cases top : names.dropLast = []
  · exact .inr (.inr ⟨by rw [top, List.append_nil], trivial⟩)
  · exact .inl ⟨_, top, rfl, fun name member => external name (List.dropLast_subset _ member)⟩

/-- The metadata file lies in the internal directory. -/
theorem folderMetadataRelativePath_splitOn :
    folderMetadataRelativePath.splitOn slash = [metadataDirectory, units "folders.yml"] := by
  decide +kernel

/-- The path of the metadata file resolves as it is written. -/
theorem plain_folderMetadataRelativePath :
    ∀ segment ∈ folderMetadataRelativePath.splitOn slash, PlainSegment segment := by
  rw [folderMetadataRelativePath_splitOn]
  unfold PlainSegment
  decide +kernel

/-- An audit entry takes an id, a time, the audit directory and one append. -/
theorem meets_writeAuditEntry {allowed : ∀ {Answer : Type}, FsCall Answer → Prop}
    (asks : allowed .randomUUID ∧ allowed .now)
    (makes : allowed (.mkdir (ctx.place ++ [metadataDirectory, units "audit"])))
    (appends : ∀ entry, allowed (.appendFile
      (ctx.place ++ [metadataDirectory, units "audit"] ++ [units "changes.jsonl"]) entry))
    (kind : AuditOperation) (entityKind : NodeKind) (path : JsString)
    (fromPath toPath : Option JsString) (summary : JsString) :
    (ctx.writeAuditEntry kind entityKind path fromPath toPath summary).Meets allowed
      fun _ => True := by
  unfold writeAuditEntry
  refine (meets_request asks.1).bind fun id _ => ?_
  refine (meets_request asks.2).bind fun ts _ => ?_
  refine (meets_attempt makes).bind fun _ _ => ?_
  exact (meets_attempt (appends _)).bind fun _ _ => trivial

/-- Every operation may write its audit. -/
theorem contained_audit (kind : AuditOperation) (entityKind : NodeKind)
    (path : JsString) (fromPath toPath : Option JsString) (summary : JsString) :
    (ctx.writeAuditEntry kind entityKind path fromPath toPath summary).Meets
      (ctx.Contained operation) fun _ => True := by
  refine meets_writeAuditEntry ⟨fun _ listed => absurd listed List.not_mem_nil,
    fun _ listed => absurd listed List.not_mem_nil⟩ (contained_of_own ?_)
      (fun entry => contained_of_own ?_) kind entityKind path fromPath toPath summary
  · intro place listed
    rw [List.mem_singleton.mp listed]
    exact .audit
  · intro place listed
    rw [List.mem_singleton.mp listed, List.append_assoc]
    exact .changes

/-- An audit whose failure is ignored is contained as well. -/
theorem meets_emitVaultAudit (kind : AuditOperation) (entityKind : NodeKind)
    (path summary : JsString) :
    (ctx.emitVaultAudit kind entityKind path summary).Meets (ctx.Contained operation)
      fun _ => True :=
  contained_audit _ _ _ _ _ _

/-- Reading the metadata looks at its file only. -/
theorem meets_readFolderMetadataMap :
    ctx.readFolderMetadataMap.Meets (ctx.Contained operation) fun _ => True := by
  unfold readFolderMetadataMap
  refine (meets_vaultPath ctx plain_folderMetadataRelativePath).bind fun path found => ?_
  refine ⟨contained_of_own fun place listed => ?_, fun answer => ?_⟩
  · rw [List.mem_singleton.mp listed, found, folderMetadataRelativePath_splitOn]
    exact .folders
  · rcases answer with code | content
    · cases code <;> trivial
    · trivial

/-- Writing the metadata touches its file, its temporary file and their directory. -/
theorem meets_writeFolderMetadataMap (metadata : FolderMetadataMap) :
    (ctx.writeFolderMetadataMap metadata).Meets (ctx.Contained operation) fun _ => True := by
  unfold writeFolderMetadataMap
  refine (meets_vaultPath ctx plain_folderMetadataRelativePath).bind fun path found => ?_
  rw [folderMetadataRelativePath_splitOn] at found
  have directory : path.dropLast = ctx.place ++ [metadataDirectory] := by
    rw [found, List.dropLast_append_of_ne_nil (List.cons_ne_nil _ _)]
    rfl
  rw [directory]
  have own : ∀ uuid, ctx.Own operation
      (ctx.place ++ [metadataDirectory] ++ [temporaryName ctx.pid uuid]) := by
    intro uuid
    rw [List.append_assoc]
    exact .temporary uuid
  refine (meets_attempt (contained_of_own ?_)).bind fun _ _ => ?_
  · intro place listed
    rw [List.mem_singleton.mp listed]
    exact .directory
  refine (meets_request fun _ listed => absurd listed List.not_mem_nil).bind fun uuid _ => ?_
  refine Program.Meets.handle ?_ fun failure => ?_
  · refine (meets_attempt (contained_of_own ?_)).bind fun _ _ => meets_attempt (contained_of_own ?_)
    · intro place listed
      rw [List.mem_singleton.mp listed]
      exact own uuid
    · intro place listed
      rcases List.mem_cons.mp listed with rfl | last
      · exact own uuid
      · rw [List.mem_singleton.mp last, found]
        exact .folders
  · refine (meets_attempt (contained_of_own ?_)).bind fun _ _ => trivial
    intro place listed
    rw [List.mem_singleton.mp listed]
    exact own uuid

/-- The directory that a walk reads is the root or inside. -/
theorem meets_directoryAt {relDir : JsString} (walked : relDir = [] ∨ Walked relDir) :
    (ctx.directoryAt relDir).Meets (ctx.Contained operation)
      fun place => ctx.Inside place ∨ place = ctx.place := by
  unfold directoryAt
  split_ifs with top
  · exact .inr rfl
  · have inner := walked.resolve_left top
    refine (meets_vaultPath ctx inner.plain).weaken fun place found => .inl ?_
    rw [found]
    exact inside_of_walked inner

/-- An operation may look at the root and at what is inside it. -/
theorem contained_looks {Answer : Type} {call : FsCall Answer} {place : Place}
    (only : call.paths = [place]) (looks : call.Looks)
    (located : ctx.Inside place ∨ place = ctx.place) : ctx.Contained operation call := by
  intro path listed
  rw [only] at listed
  rw [List.mem_singleton.mp listed]
  rcases located with inside | top
  · exact .inl inside
  · exact .inr (.inr ⟨top, looks⟩)

/-- The rows that a listing keeps have checked paths. -/
theorem walked_of_visible {relDir : JsString} (walked : relDir = [] ∨ Walked relDir)
    {dirents : List Dirent} {row : Dirent × JsString} (shown : row ∈ visible relDir dirents) :
    Walked row.2 := by
  obtain ⟨listed, external⟩ := List.mem_filter.mp shown
  obtain ⟨dirent, _, rfl⟩ := List.mem_map.mp listed
  exact walked_entry walked dirent.name (by simpa using external)

/-- The batches hold rows of the list. -/
theorem mem_of_mem_statBatches {Row : Type} {count : Nat} {rows batch : List Row} {row : Row}
    (listed : batch ∈ statBatches count rows) (own : row ∈ batch) : row ∈ rows := by
  induction count generalizing rows with
  | zero => cases listed
  | succ count ih =>
      cases rows with
      | nil => cases listed
      | cons first rest =>
          rcases List.mem_cons.mp listed with rfl | later
          · exact List.mem_of_mem_take own
          · exact List.mem_of_mem_drop (ih later)

/-- The stat of a row is contained. -/
theorem meets_statRow {rel : JsString} (walked : Walked rel) :
    (ctx.statRow rel).Meets (ctx.Contained operation) fun _ => True := by
  unfold statRow
  cases resolved : resolveVaultPath ctx.cwd ctx.root rel with
  | error failure => trivial
  | ok place =>
      refine ⟨contained_of_inside fun path listed => ?_, fun answer => ?_⟩
      · rw [List.mem_singleton.mp listed, resolveVaultPath_of_plain walked.plain resolved]
        exact inside_of_walked walked
      · cases answer <;> trivial

/-- The stats of a batch are contained and belong to its rows. -/
theorem meets_statBatch {rows : List (Dirent × JsString)}
    (walked : ∀ row ∈ rows, Walked row.2) :
    (ctx.statBatch rows).Meets (ctx.Contained operation)
      fun stats => ∀ row ∈ stats, Walked row.2.1 := by
  induction rows with
  | nil => exact fun _ listed => absurd listed List.not_mem_nil
  | cons row rows ih =>
      have own := walked row List.mem_cons_self
      unfold statBatch
      refine (meets_statRow own).bind fun stat _ => ?_
      refine (ih fun other member => walked other (List.mem_cons_of_mem _ member)).bind
        fun others rest => ?_
      intro other member
      rcases List.mem_cons.mp member with rfl | later
      · exact own
      · exact rest other later

/-- What a batch has settled to are rows of the batch. -/
theorem walked_of_settled {rows : List (Dirent × JsString × Except VaultFailure FileStat)}
    {stats : List (Dirent × JsString × FileStat)} (walked : ∀ row ∈ rows, Walked row.2.1)
    (done : settled rows = .ok stats) : ∀ row ∈ stats, Walked row.2.1 := by
  induction rows generalizing stats with
  | nil =>
      cases done
      exact fun _ listed => absurd listed List.not_mem_nil
  | cons row rows ih =>
      rcases row with ⟨dirent, rel, stat⟩
      unfold settled at done
      rw [List.mapM_cons] at done
      cases stat with
      | error failure => cases done
      | ok stat =>
          cases rest : settled rows with
          | error failure =>
              unfold settled at rest
              rw [rest] at done
              cases done
          | ok others =>
              have later := ih (fun other member => walked other (List.mem_cons_of_mem _ member)) rest
              unfold settled at rest
              rw [rest] at done
              cases done
              intro other member
              rcases List.mem_cons.mp member with rfl | inner
              · exact walked (dirent, rel, .ok stat) List.mem_cons_self
              · exact later other inner

/-- The entries have no internal segment. -/
def Clean (entries : List WalkedEntry) : Prop := ∀ entry ∈ entries, External entry.path

/-- A list of external entries stays one with one more of them. -/
theorem Clean.concat {entries : List WalkedEntry} (clean : Clean entries) (entry : WalkedEntry)
    (external : External entry.path) : Clean (entries ++ [entry]) := by
  intro other member
  rcases List.mem_append.mp member with earlier | last
  · exact clean other earlier
  · rw [List.mem_singleton.mp last]
    exact external

/-- A walk from a walked directory. -/
def Descends (operation : CoreOperation) (ctx : VaultContext)
    (descend : JsString → List WalkedEntry → VaultProgram (List WalkedEntry)) : Prop :=
  ∀ rel entries, Walked rel → Clean entries →
    (descend rel entries).Meets (ctx.Contained operation) Clean

/-- Adding the rows of a batch is contained if walking down is, and adds external entries. -/
theorem meets_addRows {cap : Int}
    {descend : JsString → List WalkedEntry → VaultProgram (List WalkedEntry)}
    (descends : Descends operation ctx descend) {rows : List (Dirent × JsString × FileStat)}
    (walked : ∀ row ∈ rows, Walked row.2.1) {entries : List WalkedEntry} (clean : Clean entries) :
    (addRows cap descend rows entries).Meets (ctx.Contained operation) Clean := by
  induction rows generalizing entries with
  | nil => exact clean
  | cons row rows ih =>
      rcases row with ⟨dirent, rel, stat⟩
      have own : Walked rel := walked (dirent, rel, stat) List.mem_cons_self
      have others := fun other member => walked other (List.mem_cons_of_mem _ member)
      unfold addRows
      cases dirent.kind with
      | folder =>
          have listed := clean.concat ⟨rel, .folder, 0, stat.mtimeMs, none⟩ own.external
          dsimp only
          split_ifs
          · trivial
          · exact (descends rel _ own listed).bind fun below found => ih others found
      | file =>
          have listed := clean.concat ⟨rel, .file, stat.size, stat.mtimeMs, none⟩ own.external
          dsimp only
          split_ifs
          · trivial
          · exact ih others listed
      | other => exact ih others clean

/-- The batches of a directory are contained if walking down is. -/
theorem meets_addBatches {cap : Int}
    {descend : JsString → List WalkedEntry → VaultProgram (List WalkedEntry)}
    (descends : Descends operation ctx descend) {batches : List (List (Dirent × JsString))}
    (walked : ∀ batch ∈ batches, ∀ row ∈ batch, Walked row.2) {entries : List WalkedEntry}
    (clean : Clean entries) :
    (ctx.addBatches cap descend batches entries).Meets (ctx.Contained operation) Clean := by
  induction batches generalizing entries with
  | nil => exact clean
  | cons batch batches ih =>
      unfold addBatches
      refine (meets_statBatch (walked batch List.mem_cons_self)).bind fun rows found => ?_
      cases done : settled rows with
      | error failure => trivial
      | ok stats =>
          refine (meets_addRows descends (walked_of_settled found done) clean).bind
            fun next kept => ?_
          exact ih (fun other member => walked other (List.mem_cons_of_mem _ member)) kept

/-- A walk stays in the vault and lists no internals. -/
theorem meets_walkEntries (cap : Int) (levels : Nat) {relDir : JsString}
    (walked : relDir = [] ∨ Walked relDir) {entries : List WalkedEntry} (clean : Clean entries) :
    (ctx.walkEntries cap levels relDir entries).Meets (ctx.Contained operation) Clean := by
  induction levels generalizing relDir entries with
  | zero =>
      unfold walkEntries
      split_ifs
      · trivial
      · exact clean
  | succ below ih =>
      unfold walkEntries
      split_ifs
      · trivial
      · refine (meets_directoryAt walked).bind fun place located => ?_
        refine (meets_attempt (contained_looks rfl ?_ located)).bind fun dirents _ => ?_
        · trivial
        refine meets_addBatches (fun rel listed own kept => ih (.inr own) kept) ?_ clean
        intro batch listed row own
        exact walked_of_visible walked (mem_of_mem_statBatches listed own)

/-- The place of a checked path is inside the root. -/
theorem inside_of_vaultPath {rel : JsString} (walked : Walked rel) {place : Place}
    (found : place = ctx.place ++ rel.splitOn slash) : ctx.Inside place := by
  rw [found]
  exact inside_of_walked walked

/-- A call on places inside. -/
theorem contained_at {Answer : Type} {call : FsCall Answer} {place : Place}
    (only : call.paths = [place]) (inside : ctx.Inside place) : ctx.Contained operation call := by
  intro path listed
  rw [only] at listed
  rw [List.mem_singleton.mp listed]
  exact .inl inside

/-- Looks at places inside are allowed. -/
def Looking (ctx : VaultContext) (allowed : ∀ {Answer : Type}, FsCall Answer → Prop) : Prop :=
  ∀ place, ctx.Inside place → allowed (.stat place) ∧ allowed (.readdir place)

/-- Containment allows the looks that the checks make. -/
theorem contained_looking : ctx.Looking (ctx.Contained operation) :=
  fun _ inside => ⟨contained_at rfl inside, contained_at rfl inside⟩

section Checks

variable {allowed : ∀ {Answer : Type}, FsCall Answer → Prop}

/-- The check of a folder looks, and gives the place of its path. -/
theorem meets_folderAt (looking : ctx.Looking allowed) (folderPath : JsString) :
    (ctx.folderAt folderPath).Meets allowed fun found =>
      ∀ rel place, found = .ok (rel, place) → rel = folderPath ∧
        validateVaultPath folderPath .folder = true ∧ place = ctx.place ++ rel.splitOn slash := by
  unfold folderAt
  refine (meets_validatedPath _ _).bind fun rel valid => ?_
  obtain ⟨rfl, valid⟩ := valid
  have walked := walked_of_valid valid
  refine (meets_vaultPath ctx walked.plain).bind fun place found => ?_
  refine (meets_statOrNull (looking place (inside_of_vaultPath walked found)).1).bind
    fun stat _ => ?_
  split_ifs
  · rintro _ _ ⟨⟩
  · rintro _ _ ⟨⟩
    exact ⟨rfl, valid, found⟩

/-- The checks of a new color look, and give the path and the normalized color. -/
theorem meets_checkSet (looking : ctx.Looking allowed) (folderPath : JsString)
    (input : FolderMetadataInput) :
    (ctx.checkSet folderPath input).Meets allowed fun checked =>
      ∀ rel normalized, checked = .ok (rel, normalized) → rel = folderPath ∧
        validateVaultPath folderPath .folder = true ∧
        normalizeFolderMetadataInput input = .ok normalized := by
  unfold checkSet
  refine (meets_validatedPath _ _).bind fun rel valid => ?_
  obtain ⟨rfl, valid⟩ := valid
  have walked := walked_of_valid valid
  cases normal : normalizeFolderMetadataInput input with
  | error error => rintro _ _ ⟨⟩
  | ok normalized =>
      refine (meets_vaultPath ctx walked.plain).bind fun place found => ?_
      refine (meets_statOrNull (looking place (inside_of_vaultPath walked found)).1).bind
        fun stat _ => ?_
      split
      · rintro _ _ ⟨⟩
      · rintro _ _ ⟨⟩
        exact ⟨rfl, valid, rfl⟩

/-- The checks of a folder's removal look, and give the place of its path. -/
theorem meets_checkDelete (looking : ctx.Looking allowed) (path : JsString) (recursive : Bool) :
    (ctx.checkDelete path recursive).Meets allowed fun checked =>
      ∀ rel place, checked = .ok (rel, place) → rel = path ∧
        validateVaultPath path .folder = true ∧ place = ctx.place ++ rel.splitOn slash := by
  unfold checkDelete
  refine (meets_folderAt looking path).bind fun found known => ?_
  rcases found with error | ⟨rel, abs⟩
  · rintro _ _ ⟨⟩
  · obtain ⟨rfl, valid, located⟩ := known rel abs rfl
    have inside := inside_of_vaultPath (walked_of_valid valid) located
    refine (meets_attempt (looking abs inside).2).bind fun children _ => ?_
    split
    · rintro _ _ ⟨⟩
    · rintro _ _ ⟨⟩
      exact ⟨rfl, valid, located⟩

/-- What is accepted as the path of a file is accepted as one of a folder. -/
theorem validateVaultPath_folder {path : JsString} {kind : VaultPathKind}
    (valid : validateVaultPath path kind = true) : validateVaultPath path .folder = true := by
  obtain ⟨some, short, plain, first, last, segments, _⟩ := validateVaultPath_iff.mp valid
  exact validateVaultPath_iff.mpr ⟨some, short, plain, first, last, segments, by rintro ⟨⟩⟩

/-- The ends of a move that passed its checks. -/
structure CheckedEnds (ctx : VaultContext) (folder : Bool) (ends : MoveEnds) : Prop where
  source : validateVaultPath ends.fromPath .folder = true
  target : validateVaultPath ends.toPath .folder = true
  fromPlace : ends.fromAbs = ctx.place ++ namesOf ends.fromPath
  toPlace : ends.toAbs = ctx.place ++ namesOf ends.toPath
  outside : folder = true → relativeDescendantPath ends.fromPath ends.toPath = none

/-- The ends of a checked move are inside the root. -/
theorem CheckedEnds.inside {folder : Bool} {ends : MoveEnds} (checked : CheckedEnds ctx folder ends) :
    ctx.Inside ends.fromAbs ∧ ctx.Inside ends.toAbs :=
  ⟨inside_of_vaultPath (walked_of_valid checked.source) checked.fromPlace,
    inside_of_vaultPath (walked_of_valid checked.target) checked.toPlace⟩

/-- The checks of a move look, and give both ends. -/
theorem meets_checkMove (looking : ctx.Looking allowed) (fromPath toPath : JsString)
    (folder : Bool) :
    (ctx.checkMove fromPath toPath folder).Meets allowed fun checked =>
      ∀ ends, checked = .ok ends →
        ends.fromPath = fromPath ∧ ends.toPath = toPath ∧ CheckedEnds ctx folder ends := by
  unfold checkMove
  refine (meets_validatedPath _ _).bind fun source valid => ?_
  refine (meets_validatedPath _ _).bind fun target allowed => ?_
  obtain ⟨rfl, valid⟩ := valid
  obtain ⟨rfl, allowed⟩ := allowed
  split
  · rintro _ ⟨⟩
  rename_i apart
  have walked := walked_of_valid valid
  refine (meets_vaultPath ctx walked.plain).bind fun fromAbs found => ?_
  refine (meets_vaultPath ctx (walked_of_valid allowed).plain).bind fun toAbs located => ?_
  refine (meets_statOrNull (looking fromAbs (inside_of_vaultPath walked found)).1).bind
    fun stat _ => ?_
  split
  · rintro _ ⟨⟩
  · rintro _ ⟨⟩
    refine ⟨rfl, rfl, validateVaultPath_folder valid, validateVaultPath_folder allowed, found,
      located, fun kind => ?_⟩
    rw [← Option.not_isSome_iff_eq_none]
    exact fun inner => apart ⟨kind, inner⟩

end Checks

/-- The check of a file looks, and gives a place inside the root. -/
theorem meets_fileAt {rel : JsString} (walked : Walked rel) :
    (ctx.fileAt rel).Meets (ctx.Contained operation) fun found =>
      ∀ place stat, found = .ok (place, stat) → ctx.Inside place := by
  unfold fileAt
  refine (meets_vaultPath ctx walked.plain).bind fun place found => ?_
  have inside := inside_of_vaultPath walked found
  refine (meets_statOrNull (contained_at rfl inside)).bind fun stat _ => ?_
  cases stat with
  | none => rintro _ _ ⟨⟩
  | some stat =>
      dsimp only
      split_ifs
      · rintro _ _ ⟨⟩
      · rintro _ _ ⟨⟩
        exact inside

/-- The queued part of a new color is contained. -/
theorem meets_setSection (rel : JsString) (input : FolderMetadataInput) :
    (ctx.setSection rel input).Meets (ctx.Contained operation) fun _ => True := by
  unfold setSection
  refine meets_readFolderMetadataMap.bind fun read _ => ?_
  cases read with
  | error error => trivial
  | ok metadata =>
      refine (meets_writeFolderMetadataMap _).bind fun _ _ => ?_
      exact (meets_emitVaultAudit _ _ _ _).bind fun _ _ => trivial

/-- Setting a color is contained. -/
theorem meets_setFolderMetadata (folderPath : JsString) (input : FolderMetadataInput) :
    (ctx.setFolderMetadata folderPath input).Meets (ctx.Contained operation) fun _ => True := by
  refine meets_classified ((meets_checkSet contained_looking _ _).bind fun checked _ => ?_) fun _ => trivial
  cases checked with
  | error error => trivial
  | ok checked => exact meets_setSection _ _

/-- Writing a file at a checked path is contained. -/
theorem meets_writeAt {rel : JsString} (walked : Walked rel) (content : FileContent)
    (overwrite : Bool) :
    (ctx.writeAt rel content overwrite).Meets (ctx.Contained operation) fun _ => True := by
  unfold writeAt
  refine (meets_vaultPath ctx walked.plain).bind fun place found => ?_
  have inside := inside_of_vaultPath walked found
  refine (meets_pathExists (contained_at rfl inside)).bind fun existsAlready _ => ?_
  split
  · trivial
  · refine (meets_attempt (contained_parent inside)).bind fun _ _ => ?_
    refine (meets_attempt (contained_at rfl inside)).bind fun _ _ => ?_
    refine (meets_attempt (contained_at rfl inside)).bind fun _ _ => ?_
    exact (meets_emitVaultAudit _ _ _ _).bind fun _ _ => trivial

/-- A name with a hyphen is neither empty nor a dot name. -/
theorem plainSegment_name {text : JsString} (hyphen : (45 : CodeUnit) ∈ text) :
    PlainSegment text := by
  refine ⟨?_, ?_, ?_⟩ <;> rintro rfl <;> exact absurd hyphen (by decide)

/-- The name of a deletion's directory in the trash has no slash. -/
theorem slash_not_mem_batchId (deletedAt uuid : PlainText) : slash ∉ batchId deletedAt uuid := by
  unfold batchId
  rw [List.mem_append, List.mem_map, List.mem_cons]
  rintro (⟨unit, own, same⟩ | same | own)
  · split_ifs at same
    · cases same
    · exact deletedAt.plain (same ▸ own)
  · cases same
  · exact uuid.plain own

/-- The path of a deleted entry in the trash resolves as it is written. -/
theorem trash_splitOn {path : JsString} (walked : Walked path) (deletedAt uuid : PlainText) :
    (∀ segment ∈ (posixJoin [metadataDirectory, trashName, batchId deletedAt uuid, path]).splitOn
        slash, PlainSegment segment) ∧
      (posixJoin [metadataDirectory, trashName, batchId deletedAt uuid, path]).splitOn slash =
        [metadataDirectory, trashName, batchId deletedAt uuid] ++ path.splitOn slash := by
  have fixed : metadataDirectory.splitOn slash = [metadataDirectory] ∧
      trashName.splitOn slash = [trashName] ∧ PlainSegment metadataDirectory ∧
      PlainSegment trashName := by
    unfold PlainSegment
    decide +kernel
  have batch : (batchId deletedAt uuid).splitOn slash = [batchId deletedAt uuid] :=
    List.splitOn_eq_singleton (slash_not_mem_batchId deletedAt uuid)
  have hyphen : (45 : CodeUnit) ∈ batchId deletedAt uuid :=
    List.mem_append_right _ List.mem_cons_self
  have plain : ∀ part ∈ [metadataDirectory, trashName, batchId deletedAt uuid, path],
      ∀ segment ∈ part.splitOn slash, PlainSegment segment := by
    simp only [List.forall_mem_cons, fixed.1, fixed.2.1, batch]
    refine ⟨⟨fixed.2.2.1, ?_⟩, ⟨fixed.2.2.2, ?_⟩, ⟨plainSegment_name hyphen, ?_⟩, walked.plain, ?_⟩ <;>
      exact fun _ listed => absurd listed List.not_mem_nil
  have split := splitOn_posixJoin (List.cons_ne_nil _ _) plain
  simp only [List.flatMap_cons, List.flatMap_nil, fixed.1, fixed.2.1, batch, List.append_nil,
    List.singleton_append] at split
  refine ⟨?_, split⟩
  rw [splitOn_posixJoin (List.cons_ne_nil _ _) plain]
  intro segment member
  obtain ⟨part, listed, own⟩ := List.mem_flatMap.mp member
  exact plain part listed segment own

/-- Choosing a place in the trash takes a time and an id. -/
theorem meets_trashRelativePath (rel : JsString) :
    (trashRelativePath rel).Meets (ctx.Contained operation) fun trashPath =>
      ∃ deletedAt uuid,
        trashPath = posixJoin [metadataDirectory, trashName, batchId deletedAt uuid, rel] := by
  unfold trashRelativePath
  refine (meets_request fun _ listed => absurd listed List.not_mem_nil).bind fun deletedAt _ => ?_
  refine (meets_request fun _ listed => absurd listed List.not_mem_nil).bind fun uuid _ => ?_
  exact ⟨deletedAt, uuid, rfl⟩

/-- Moving to the trash is contained for the operations that trash. -/
theorem meets_moveToTrash {rel : JsString} {abs : Place} (inside : ctx.Inside abs)
    (trashes : operation.Trashes rel) (valid : validateVaultPath rel .folder = true) :
    (ctx.moveToTrash rel abs).Meets (ctx.Contained operation) fun _ => True := by
  refine (meets_trashRelativePath rel).bind ?_
  rintro _ ⟨deletedAt, uuid, rfl⟩
  obtain ⟨plain, split⟩ := trash_splitOn (walked_of_valid valid) deletedAt uuid
  refine (meets_vaultPath ctx plain).bind fun trashAbs found => ?_
  rw [split] at found
  refine (meets_attempt (contained_of_own ?_)).bind fun _ _ =>
    (meets_attempt ?_).bind fun _ _ => trivial
  · intro place listed
    rw [List.mem_singleton.mp listed, found, ← List.append_assoc,
      List.dropLast_append_of_ne_nil (List.splitOn_ne_nil slash rel)]
    exact .trash trashes valid deletedAt uuid (.inr rfl)
  · intro place listed
    rcases List.mem_cons.mp listed with rfl | last
    · exact .inl inside
    · rw [List.mem_singleton.mp last, found, ← List.append_assoc]
      exact .inr (.inl (.trash trashes valid deletedAt uuid (.inl rfl)))

/-- Removing, or moving to the trash, is contained. -/
theorem meets_removeOrTrash {rel : JsString} {abs : Place} {recursive permanent : Bool}
    (inside : ctx.Inside abs) (trashes : permanent = false → operation.Trashes rel)
    (valid : validateVaultPath rel .folder = true) :
    (ctx.removeOrTrash rel abs recursive permanent).Meets (ctx.Contained operation)
      fun _ => True := by
  unfold removeOrTrash
  cases permanent with
  | true => exact (meets_attempt (contained_at rfl inside)).bind fun _ _ => trivial
  | false => exact (meets_moveToTrash inside (trashes rfl) valid).bind fun _ _ => trivial

/-- Deleting a file is contained. -/
theorem meets_deleteVaultFile (path : JsString) (permanent : Bool)
    (trashes : permanent = false → operation.Trashes path) :
    (ctx.deleteVaultFile path permanent).Meets (ctx.Contained operation) fun _ => True := by
  refine meets_classified ?_ fun _ => trivial
  refine (meets_validatedPath _ _).bind fun rel valid => ?_
  obtain ⟨rfl, valid⟩ := valid
  refine (meets_fileAt (walked_of_valid valid)).bind fun found known => ?_
  rcases found with error | ⟨abs, stat⟩
  · trivial
  · refine (meets_removeOrTrash (known abs stat rfl) trashes (validateVaultPath_folder valid)).bind
      fun _ _ => ?_
    exact (meets_emitVaultAudit _ _ _ _).bind fun _ _ => trivial

/-- The queued part of a folder's removal is contained. -/
theorem meets_deleteSection {rel : JsString} {abs : Place} {permanent : Bool}
    (inside : ctx.Inside abs) (trashes : permanent = false → operation.Trashes rel)
    (valid : validateVaultPath rel .folder = true) :
    (ctx.deleteSection rel abs permanent).Meets (ctx.Contained operation) fun _ => True := by
  unfold deleteSection
  refine meets_readFolderMetadataMap.bind fun read _ => ?_
  cases read with
  | error error => trivial
  | ok metadata =>
      refine (meets_removeOrTrash inside trashes valid).bind fun _ _ => ?_
      refine (meets_writeFolderMetadataMap _).bind fun _ _ => ?_
      exact (meets_emitVaultAudit _ _ _ _).bind fun _ _ => trivial

/-- Deleting a folder is contained. -/
theorem meets_deleteVaultFolder (path : JsString) (recursive permanent : Bool)
    (trashes : permanent = false → operation.Trashes path) :
    (ctx.deleteVaultFolder path recursive permanent).Meets (ctx.Contained operation)
      fun _ => True := by
  refine meets_classified ((meets_checkDelete contained_looking _ _).bind fun checked known => ?_) fun _ => trivial
  rcases checked with error | ⟨rel, abs⟩
  · trivial
  · obtain ⟨rfl, valid, located⟩ := known rel abs rfl
    exact meets_deleteSection (inside_of_vaultPath (walked_of_valid valid) located) trashes valid

section Moves

variable {allowed : ∀ {Answer : Type}, FsCall Answer → Prop}
  (insider : ∀ {Answer : Type} {call : FsCall Answer},
    (∀ path ∈ call.paths, ctx.Inside path) → allowed call)
include insider

/-- Clearing the target of a move removes the target only. -/
theorem meets_clearTarget {ends : MoveEnds} (target : ctx.Inside ends.toAbs) (overwrite : Bool) :
    (clearTarget ends overwrite).Meets allowed fun _ => True := by
  have own {Answer : Type} {call : FsCall Answer} (only : call.paths = [ends.toAbs]) :
      allowed call := by
    refine insider fun path listed => ?_
    rw [only] at listed
    rwa [List.mem_singleton.mp listed]
  unfold clearTarget
  split
  · refine (meets_pathExists (own rfl)).bind fun occupied _ => ?_
    split
    · exact meets_attempt (own rfl)
    · trivial
  · trivial

/-- The rename, and the copy in its place, touch the two ends only. -/
theorem meets_renameOrCopy {ends : MoveEnds} (source : ctx.Inside ends.fromAbs)
    (target : ctx.Inside ends.toAbs) (folder : Bool) :
    (renameOrCopy ends folder).Meets allowed fun _ => True := by
  have both : ∀ path ∈ [ends.fromAbs, ends.toAbs], ctx.Inside path := by
    intro path listed
    rcases List.mem_cons.mp listed with rfl | last
    · exact source
    · rwa [List.mem_singleton.mp last]
  refine ⟨insider both, fun answer => ?_⟩
  rcases answer with code | _
  · cases code with
    | exdev =>
        refine (meets_attempt ?_).bind fun _ _ => meets_attempt (insider fun path listed => ?_)
        · cases folder <;> exact insider both
        · rwa [List.mem_singleton.mp listed]
    | _ => trivial
  · trivial

end Moves

/-- The part of a move that changes the tree is contained. -/
theorem meets_movePath {ends : MoveEnds} (source : ctx.Inside ends.fromAbs)
    (target : ctx.Inside ends.toAbs) (folder overwrite : Bool)
    (metadata : Option FolderMetadataMap) :
    (ctx.movePath ends folder overwrite metadata).Meets (ctx.Contained operation)
      fun _ => True := by
  have written : (ctx.writeMovedMetadata ends metadata).Meets (ctx.Contained operation)
      fun _ => True := by
    cases metadata with
    | none => trivial
    | some metadata => exact meets_writeFolderMetadataMap _
  unfold movePath
  refine (meets_pathExists (contained_at rfl target)).bind fun occupied _ => ?_
  split
  · trivial
  refine (meets_attempt (contained_parent target)).bind fun _ _ => ?_
  refine (meets_clearTarget contained_of_inside target overwrite).bind fun _ _ => ?_
  refine (meets_renameOrCopy contained_of_inside source target folder).bind fun _ _ => written.bind fun _ _ => ?_
  exact (contained_audit _ _ _ _ _ _).bind fun _ _ => trivial

/-- The queued part of a folder's move is contained. -/
theorem meets_moveSection {ends : MoveEnds} (source : ctx.Inside ends.fromAbs)
    (target : ctx.Inside ends.toAbs) (overwrite : Bool) :
    (ctx.moveSection ends overwrite).Meets (ctx.Contained operation) fun _ => True := by
  unfold moveSection
  refine meets_readFolderMetadataMap.bind fun read _ => ?_
  cases read with
  | error error => trivial
  | ok metadata => exact meets_movePath source target _ _ _

/-- A move is contained. -/
theorem meets_moveVaultPath (fromPath toPath : JsString) (folder overwrite : Bool) :
    (ctx.moveVaultPath fromPath toPath folder overwrite).Meets (ctx.Contained operation)
      fun _ => True := by
  refine meets_classified ((meets_checkMove contained_looking _ _ _).bind fun checked known => ?_) fun _ => trivial
  rcases checked with error | ends
  · trivial
  · obtain ⟨source, target⟩ := (known ends rfl).2.2.inside
    cases folder with
    | false => exact meets_movePath source target _ _ _
    | true => exact meets_moveSection source target _

/-- The files have no internal segment and resolve inside. -/
def CleanFiles (files : List JsString) : Prop := ∀ file ∈ files, Walked file

/-- A list of checked files stays one with one more of them. -/
theorem CleanFiles.concat {files : List JsString} (clean : CleanFiles files) {file : JsString}
    (walked : Walked file) : CleanFiles (files ++ [file]) := by
  intro other member
  rcases List.mem_append.mp member with earlier | last
  · exact clean other earlier
  · rwa [List.mem_singleton.mp last]

/-- The rows of a search are contained if walking down is, and add checked files. -/
theorem meets_walkRows {descend : JsString → List JsString → VaultProgram (List JsString × Bool)}
    (descends : ∀ rel files, Walked rel → CleanFiles files →
      (descend rel files).Meets (ctx.Contained operation) fun walked => CleanFiles walked.1)
    {rows : List (Dirent × JsString)}
    (walked : ∀ row ∈ rows, isInternalVaultPath row.2 = false → Walked row.2)
    {files : List JsString} (clean : CleanFiles files) :
    (walkRows descend rows files).Meets (ctx.Contained operation)
      fun walked => CleanFiles walked.1 := by
  induction rows generalizing files with
  | nil => exact clean
  | cons row rows ih =>
      rcases row with ⟨dirent, rel⟩
      have others := fun other member => walked other (List.mem_cons_of_mem _ member)
      unfold walkRows
      by_cases excluded : isExcludedSearchPath rel = true
      · rw [if_pos excluded]
        exact ih others clean
      rw [if_neg excluded]
      unfold isExcludedSearchPath at excluded
      rw [Bool.or_eq_true, Bool.or_eq_true, not_or, not_or, Bool.not_eq_true] at excluded
      have own := walked (dirent, rel) List.mem_cons_self excluded.1.1
      cases dirent.kind with
      | folder =>
          refine (descends rel files own clean).bind fun below found => ?_
          split
          · exact found
          · exact ih others found
      | file =>
          dsimp only
          split_ifs
          · exact clean.concat own
          · exact ih others (clean.concat own)
          · exact ih others clean
      | other => exact ih others clean

/-- The walk of a search is contained and collects checked files. -/
theorem meets_walk (levels : Nat) {relDir : JsString} (walked : relDir = [] ∨ Walked relDir)
    {files : List JsString} (clean : CleanFiles files) :
    (ctx.walk levels relDir files).Meets (ctx.Contained operation)
      fun walked => CleanFiles walked.1 := by
  induction levels generalizing relDir files with
  | zero => exact clean
  | succ below ih =>
      unfold walk
      refine (meets_directoryAt walked).bind fun place located => ?_
      refine (meets_attempt (contained_looks rfl ?_ located)).bind fun dirents _ => ?_
      · trivial
      refine meets_walkRows (fun rel found own kept => ih (.inr own) kept) ?_ clean
      intro row listed external
      obtain ⟨dirent, _, rfl⟩ := List.mem_map.mp listed
      exact walked_entry walked dirent.name external

/-- Collecting the notes to search is contained. -/
theorem meets_collectSearchableFiles (levels : Nat) {under : JsString}
    (walked : under = [] ∨ Walked under) :
    (ctx.collectSearchableFiles levels under).Meets (ctx.Contained operation)
      fun collected => CleanFiles collected.1 := by
  unfold collectSearchableFiles
  refine (meets_directoryAt walked).bind fun start located => ?_
  refine (meets_statOrNull (contained_looks rfl ?_ located)).bind fun stat _ => ?_
  · trivial
  split
  · exact fun _ listed => absurd listed List.not_mem_nil
  · refine (meets_walk levels walked fun _ listed => absurd listed List.not_mem_nil).bind
      fun found clean => ?_
    exact fun file listed => clean file (List.mem_mergeSort.mp listed)

/-- A new hit is in the file that is searched. -/
theorem searchLine_path {host : VaultHost} {lowerQuery filePath : JsString}
    {offset limit context : Nat} {lines : List JsString} {found : List SearchHit × Nat}
    {row : JsString × Nat} {hit : SearchHit}
    (listed : hit ∈ (searchLine host lowerQuery offset limit context filePath lines found row).1) :
    hit ∈ found.1 ∨ hit.path = filePath := by
  unfold searchLine at listed
  split at listed
  · exact .inl listed
  split at listed
  · exact .inl listed
  · rcases List.mem_append.mp listed with earlier | last
    · exact .inl earlier
    · exact .inr (by rw [List.mem_singleton.mp last])

/-- The hits that a file adds are in that file. -/
theorem searchLines_path {host : VaultHost} {lowerQuery filePath : JsString}
    {offset limit context : Nat} {lines : List JsString} (rows : List (JsString × Nat))
    {found : List SearchHit × Nat} {hit : SearchHit}
    (listed : hit ∈ (rows.foldl
      (searchLine host lowerQuery offset limit context filePath lines) found).1) :
    hit ∈ found.1 ∨ hit.path = filePath := by
  induction rows generalizing found with
  | nil => exact .inl listed
  | cons row rows ih =>
      rcases ih listed with earlier | own
      · exact searchLine_path earlier
      · exact .inr own

/-- Searching checked files is contained and finds hits in external files. -/
theorem meets_searchFiles (lowerQuery : JsString) (offset limit context : Nat)
    {files : List JsString} (clean : CleanFiles files) {found : List SearchHit × Nat}
    (external : ∀ hit ∈ found.1, External hit.path) :
    (ctx.searchFiles lowerQuery offset limit context files found).Meets (ctx.Contained operation)
      fun found => ∀ hit ∈ found.1, External hit.path := by
  induction files generalizing found with
  | nil => exact external
  | cons file files ih =>
      have own := clean file List.mem_cons_self
      unfold searchFiles
      refine (meets_vaultPath ctx own.plain).bind fun place located => ?_
      refine (meets_attempt (contained_at rfl (inside_of_vaultPath own located))).bind
        fun content _ => ?_
      refine ih (fun other member => clean other (List.mem_cons_of_mem _ member)) ?_
      intro hit listed
      rcases searchLines_path _ listed with earlier | same
      · exact external hit earlier
      · rw [same]
        exact own.external

/-- A search is contained and finds hits in external files. -/
theorem meets_searchVaultFiles (levels : Nat) (input : SearchInput) :
    (ctx.searchVaultFiles levels input).Meets (ctx.Contained operation)
      fun result => ∀ hit ∈ result.results, External hit.path := by
  unfold searchVaultFiles
  dsimp only
  split
  · exact fun _ listed => absurd listed List.not_mem_nil
  · refine (meets_validatedOptionalPath _ _).bind fun under walked => ?_
    refine (meets_collectSearchableFiles levels walked).bind fun collected clean => ?_
    refine (meets_searchFiles _ _ _ _ clean ?_).bind fun found external => external
    exact fun _ listed => absurd listed List.not_mem_nil

/-- Asking for the vault is contained. -/
theorem meets_getVaultInfo :
    ctx.getVaultInfo.Meets (ctx.Contained operation) fun _ => True := by
  refine meets_classified ?_ fun _ => trivial
  refine (meets_attempt (contained_looks rfl ?_ (.inr rfl))).bind fun _ _ => ?_
  · trivial
  refine (meets_walkEntries _ _ (.inl rfl) ?_).bind fun _ _ => trivial
  exact fun _ listed => absurd listed List.not_mem_nil

/-- A listing is contained and shows external entries. -/
theorem meets_listVaultTree (under : Option JsString) (depth entryCap : Option Int) :
    (ctx.listVaultTree under depth entryCap).Meets (ctx.Contained operation) fun result =>
      ∀ entries, result = .ok entries → Clean entries := by
  refine meets_classified ?_ fun _ => by rintro _ ⟨⟩
  refine (meets_validatedOptionalPath _ _).bind fun under walked => ?_
  refine (meets_directoryAt walked).bind fun start located => ?_
  refine (meets_statOrNull (contained_looks rfl ?_ located)).bind fun stat _ => ?_
  · trivial
  split
  · rintro _ ⟨⟩
  refine (meets_walkEntries _ _ walked fun _ listed => absurd listed List.not_mem_nil).bind
    fun entries clean => ?_
  refine meets_readFolderMetadataMap.bind fun read _ => ?_
  rcases read with error | metadata
  · rintro _ ⟨⟩
  · rintro _ ⟨⟩
    intro entry listed
    obtain ⟨walkedEntry, member, rfl⟩ := List.mem_map.mp listed
    split_ifs
    · exact clean walkedEntry member
    · exact clean walkedEntry member

/-- Asking for a folder's metadata is contained. -/
theorem meets_getFolderMetadata (folderPath : JsString) :
    (ctx.getFolderMetadata folderPath).Meets (ctx.Contained operation) fun _ => True := by
  refine meets_classified ((meets_folderAt contained_looking folderPath).bind fun found _ => ?_) fun _ => trivial
  rcases found with error | ⟨rel, abs⟩
  · trivial
  · refine meets_readFolderMetadataMap.bind fun read _ => ?_
    cases read <;> trivial

/-- Reading a note is contained. -/
theorem meets_readVaultFile (filePath : JsString) :
    (ctx.readVaultFile filePath).Meets (ctx.Contained operation) fun _ => True := by
  refine meets_classified ((meets_validatedPath _ _).bind fun rel valid => ?_) fun _ => trivial
  split
  · trivial
  refine (meets_fileAt (walked_of_valid (valid.1 ▸ valid.2))).bind fun found known => ?_
  rcases found with error | ⟨abs, stat⟩
  · trivial
  · exact (meets_attempt (contained_at rfl (known abs stat rfl))).bind fun _ _ => trivial

/-- Reading a file is contained. -/
theorem meets_readVaultRawFile (filePath : JsString) :
    (ctx.readVaultRawFile filePath).Meets (ctx.Contained operation) fun _ => True := by
  refine meets_classified ((meets_validatedPath _ _).bind fun rel valid => ?_) fun _ => trivial
  refine (meets_fileAt (walked_of_valid (valid.1 ▸ valid.2))).bind fun found known => ?_
  rcases found with error | ⟨abs, stat⟩ <;> trivial

/-- Writing a note is contained. -/
theorem meets_writeVaultFile (path content : JsString) (overwrite : Bool) :
    (ctx.writeVaultFile path content overwrite).Meets (ctx.Contained operation)
      fun _ => True := by
  refine meets_classified ((meets_validatedPath _ _).bind fun rel valid => ?_) fun _ => trivial
  split
  · trivial
  · exact meets_writeAt (walked_of_valid (valid.1 ▸ valid.2)) _ _

/-- Writing a file is contained. -/
theorem meets_writeVaultRawFile (path : JsString) (bytes : List UInt8) (overwrite : Bool) :
    (ctx.writeVaultRawFile path bytes overwrite).Meets (ctx.Contained operation)
      fun _ => True := by
  refine meets_classified ((meets_validatedPath _ _).bind fun rel valid => ?_) fun _ => trivial
  exact meets_writeAt (walked_of_valid (valid.1 ▸ valid.2)) _ _

/-- Making a folder is contained. -/
theorem meets_makeVaultFolder (folderPath : JsString) :
    (ctx.makeVaultFolder folderPath).Meets (ctx.Contained operation) fun _ => True := by
  refine meets_classified ((meets_validatedPath _ _).bind fun rel valid => ?_) fun _ => trivial
  have walked := walked_of_valid (valid.1 ▸ valid.2)
  refine (meets_vaultPath ctx walked.plain).bind fun abs located => ?_
  have inside := inside_of_vaultPath walked located
  refine (meets_pathExists (contained_at rfl inside)).bind fun existed _ => ?_
  refine (meets_attempt (contained_at rfl inside)).bind fun _ _ => ?_
  split
  · trivial
  · exact (meets_emitVaultAudit _ _ _ _).bind fun _ _ => trivial

end VaultContext

/-- A write makes the directory of its file. -/
theorem VaultContext.made_of_writeAt {ctx : VaultContext}
    {allowed : ∀ {Answer : Type}, FsCall Answer → Prop} {ends : VaultResult WriteFileValue → Prop}
    {rel : JsString} {place : Place} {content : FileContent} {overwrite : Bool}
    (resolved : resolveVaultPath ctx.cwd ctx.root rel = .ok place)
    (meets : (ctx.writeAt rel content overwrite).Meets allowed ends) :
    allowed (.mkdir place.dropLast) := by
  unfold writeAt at meets
  rw [vaultPath_of_resolved resolved] at meets
  have absent := meets.2 (.error .enoent)
  exact absent.1

/-- A vault whose root is the directory `v`. -/
def rootVault : VaultContext where
  cwd := []
  root := units "/v"
  pid := 1
  host := ⟨id, id, fun _ _ => true⟩
  known := by decide +kernel

end Kb1Daemon
