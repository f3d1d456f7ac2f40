import Kb1Daemon.Vault.Metadata

/-! # The operations of a vault

The operations of the vault's core as programs of file system calls. Those on folder metadata
have a first part that only looks, and a section that the queue of the root runs alone.
-/

namespace Kb1Daemon

open JsString

abbrev VaultProgram (Value : Type) := Program FsCall VaultFailure Value

/-- What the operations get of their process: the working directory and the root, which it has read
from the system, are paths as they are on disk. -/
structure VaultContext where
  cwd : Place
  root : JsString
  pid : Nat
  host : VaultHost
  known : onDisk (pathResolve cwd root) = pathResolve cwd root

/-- Make a call whose failure is thrown. -/
def attempt {Value : Type} (request : FsCall (Except FsCode Value)) : VaultProgram Value :=
  .call request fun
    | .ok value => .done value
    | .error code => .thrown (.system code)

/-- Make a call that does not fail. -/
def request {Value : Type} (request : FsCall Value) : VaultProgram Value := .call request .done

def statOrNull (path : Place) : VaultProgram (Option FileStat) :=
  .call (.stat path) fun
    | .ok stat => .done (some stat)
    | .error .enoent => .done none
    | .error code => .thrown (.system code)

def pathExists (path : Place) : VaultProgram Bool := do
  return (← statOrNull path).isSome

/-- `validateVaultPath`, which throws. -/
def validatedPath (input : JsString) (kind : VaultPathKind) : VaultProgram JsString :=
  match invalidPathReason input kind with
  | none => .done input
  | some reason => .thrown (.invalidPath input reason)

theorem validatedPath_of_valid {input : JsString} {kind : VaultPathKind}
    (valid : validateVaultPath input kind = true) : validatedPath input kind = .done input := by
  unfold validatedPath
  rw [invalidPathReason_eq_none_iff.mpr valid]

/-- `validateOptionalVaultPath`; nothing is the root. -/
def validatedOptionalPath (input : Option JsString) (kind : VaultPathKind) : VaultProgram JsString :=
  match input with
  | none => .done []
  | some [] => .done []
  | some path => validatedPath path kind

def classifyPathError : VaultFailure → Option VaultError
  | .invalidPath input reason =>
      some ⟨.invalidPath, units "Invalid vault path \"" ++ input ++ units "\": " ++ reason⟩
  | _ => none

def classifyFsCollision : VaultFailure → Option VaultError
  | .system .enotdir =>
      some ⟨.pathCollision, units "path collides with an existing file or folder"⟩
  | .system .eexist =>
      some ⟨.pathCollision, units "path collides with an existing file or folder"⟩
  | _ => none

/-- The last `catch` of an operation: what is classified is its result, the rest is thrown. -/
def classified {Value : Type} (classify : VaultFailure → Option VaultError)
    (program : VaultProgram (VaultResult Value)) : VaultProgram (VaultResult Value) :=
  program.handle fun failure =>
    match classify failure with
    | some error => .done (.error error)
    | none => .thrown failure

def pathOrCollision (failure : VaultFailure) : Option VaultError :=
  (classifyPathError failure).or (classifyFsCollision failure)

/-- The extensions of the text artifacts, which can be edited. -/
def textArtifactExtensions : List JsString :=
  [".md", ".markdown", ".mdown", ".mkdn", ".txt", ".log", ".csv", ".tsv", ".html", ".htm", ".css",
    ".js", ".jsx", ".ts", ".tsx", ".json", ".yml", ".yaml", ".xml", ".toml", ".ini", ".sh", ".py",
    ".rb", ".go", ".rs", ".java", ".c", ".cpp", ".h", ".hpp"].map units

def artifactExtension (host : VaultHost) (relPath : JsString) : JsString :=
  host.toLowerCase (extname ((relPath.splitOn slash).getLastD []))

/-- `classifyArtifactPath(relPath).editable`. -/
def isEditableArtifact (host : VaultHost) (relPath : JsString) : Bool :=
  artifactExtension host relPath ∈ textArtifactExtensions

def notEditable {Value : Type} : VaultResult Value :=
  fail .notEditable "file is not an editable text artifact"

def metadataDirectory : JsString := units ".kb1"

def folderMetadataRelativePath : JsString := posixJoin [metadataDirectory, units "folders.yml"]

def temporaryName (pid : Nat) (uuid : PlainText) : JsString :=
  dot :: decimal pid ++ dot :: uuid.text ++ units ".tmp"

/-- The name of a batch in the trash. -/
def batchId (deletedAt uuid : PlainText) : JsString :=
  (deletedAt.text.map fun unit => if unit = 58 then 45 else unit) ++ 45 :: uuid.text

def trashRelativePath (originalPath : JsString) : VaultProgram JsString := do
  let deletedAt ← request .now
  let uuid ← request .randomUUID
  return posixJoin [metadataDirectory, units "trash", batchId deletedAt uuid, originalPath]

structure WalkedEntry where
  path : JsString
  kind : NodeKind
  size : Nat
  mtimeMs : Int
  metadata : Option FolderMetadata
  deriving DecidableEq, Repr

structure VaultInfo where
  rootName : JsString
  fileCount : Nat
  folderCount : Nat
  deriving DecidableEq, Repr

structure ReadFileValue where
  path : JsString
  content : FileContent
  size : Nat
  mtimeMs : Int

structure ReadRawFileValue where
  path : JsString
  filePath : Place
  size : Nat
  mtimeMs : Int
  deriving DecidableEq, Repr

structure WriteFileValue where
  path : JsString
  size : Nat
  mtimeMs : Int
  audit : AuditEntry
  deriving DecidableEq, Repr

structure DeleteValue where
  path : JsString
  trashPath : Option JsString
  permanent : Bool
  audit : AuditEntry
  deriving DecidableEq, Repr

structure MoveValue where
  fromPath : JsString
  toPath : JsString
  kind : NodeKind
  audit : AuditEntry
  deriving DecidableEq, Repr

structure FolderMetadataValue where
  path : JsString
  metadata : FolderMetadata
  audit : Option AuditEntry
  deriving DecidableEq, Repr

def defaultDepth : Int := 10
def defaultEntryCap : Int := 5000

/-- One more than `Number.MAX_SAFE_INTEGER`, the levels that a vault is counted over. -/
def safeLevels : Nat := 2 ^ 53

def attachFolderMetadata (entries : List WalkedEntry) (metadata : MetadataObject) :
    List WalkedEntry :=
  entries.map fun entry =>
    if entry.kind = .folder then { entry with metadata := metadata.lookup entry.path } else entry

namespace VaultContext

variable (ctx : VaultContext)

/-- The resolved root. -/
def place : Place := pathResolve ctx.cwd ctx.root

def vaultPath (relPath : JsString) : VaultProgram Place :=
  match resolveVaultPath ctx.cwd ctx.root relPath with
  | .ok path => .done path
  | .error failure => .thrown failure

theorem vaultPath_of_resolved {ctx : VaultContext} {relPath : JsString} {path : Place}
    (resolved : resolveVaultPath ctx.cwd ctx.root relPath = .ok path) :
    ctx.vaultPath relPath = .done path := by
  unfold vaultPath
  rw [resolved]

def writeAuditEntry (operation : AuditOperation) (entityKind : NodeKind) (path : JsString)
    (fromPath toPath : Option JsString) (summary : JsString) : VaultProgram AuditEntry := do
  let id ← request .randomUUID
  let ts ← request .now
  let entry : AuditEntry := ⟨id.text, ts.text, operation, entityKind, path, fromPath, toPath, summary⟩
  let dir := ctx.place ++ [metadataDirectory, units "audit"]
  attempt (.mkdir dir)
  attempt (.appendFile (dir ++ [units "changes.jsonl"]) entry)
  return entry

/-- The audit of an operation on one path. -/
def emitVaultAudit (operation : AuditOperation) (entityKind : NodeKind) (path summary : JsString) :
    VaultProgram AuditEntry :=
  ctx.writeAuditEntry operation entityKind path none none summary

/-- The place of a directory of the vault; the empty path is the root. -/
def directoryAt (relDir : JsString) : VaultProgram Place :=
  if relDir = [] then .done ctx.place else ctx.vaultPath relDir

/-- The entries of a directory that are no internals of the vault, with their paths. -/
def visible (relDir : JsString) (dirents : List Dirent) : List (Dirent × JsString) :=
  (dirents.map fun dirent =>
    (dirent, if relDir = [] then dirent.name.text else posixJoin [relDir, dirent.name.text])).filter
      fun row => !isInternalVaultPath row.2

/-- The outcome of one stat of a batch. -/
def statRow (rel : JsString) : VaultProgram (Except VaultFailure FileStat) :=
  match resolveVaultPath ctx.cwd ctx.root rel with
  | .error failure => .done (.error failure)
  | .ok path => .call (.stat path) fun
      | .ok stat => .done (.ok stat)
      | .error code => .done (.error (.system code))

/-- The stats of a batch are all called before the first failure is thrown. -/
def statBatch : List (Dirent × JsString) →
    VaultProgram (List (Dirent × JsString × Except VaultFailure FileStat))
  | [] => .done []
  | row :: rows => do
      let stat ← ctx.statRow row.2
      let others ← statBatch rows
      return (row.1, row.2, stat) :: others

/-- The rows of a batch, unless a stat failed. -/
def settled (rows : List (Dirent × JsString × Except VaultFailure FileStat)) :
    Except VaultFailure (List (Dirent × JsString × FileStat)) :=
  rows.mapM fun row => row.2.2.map fun stat => (row.1, row.2.1, stat)

def statBatchSize : Nat := 32

/-- The rows in batches; there are no more batches than rows. -/
def statBatches {Row : Type} : Nat → List Row → List (List Row)
  | 0, _ => []
  | _ + 1, [] => []
  | count + 1, rows => rows.take statBatchSize :: statBatches count (rows.drop statBatchSize)

/-- The rows of one batch, added to the entries; `descend` walks a folder. -/
def addRows (cap : Int) (descend : JsString → List WalkedEntry → VaultProgram (List WalkedEntry)) :
    List (Dirent × JsString × FileStat) → List WalkedEntry → VaultProgram (List WalkedEntry)
  | [], entries => .done entries
  | (dirent, rel, stat) :: rows, entries =>
      match dirent.kind with
      | .folder => do
          let listed := entries ++ [⟨rel, .folder, 0, stat.mtimeMs, none⟩]
          if cap ≤ listed.length then .thrown .entryCapExceeded
          else
            let below ← descend rel listed
            addRows cap descend rows below
      | .file =>
          let listed := entries ++ [⟨rel, .file, stat.size, stat.mtimeMs, none⟩]
          if cap ≤ listed.length then .thrown .entryCapExceeded
          else addRows cap descend rows listed
      | .other => addRows cap descend rows entries

/-- The batches of a directory, one after another. -/
def addBatches (cap : Int) (descend : JsString → List WalkedEntry → VaultProgram (List WalkedEntry)) :
    List (List (Dirent × JsString)) → List WalkedEntry → VaultProgram (List WalkedEntry)
  | [], entries => .done entries
  | batch :: batches, entries => do
      let rows ← ctx.statBatch batch
      match settled rows with
      | .error failure => .thrown failure
      | .ok rows =>
          let next ← addRows cap descend rows entries
          addBatches cap descend batches next

/-- The walk below a directory, as many levels deep as `maxDepth - currentDepth + 1`. -/
def walkEntries (cap : Int) : Nat → JsString → List WalkedEntry → VaultProgram (List WalkedEntry)
  | levels, relDir, entries => do
      if cap ≤ entries.length then .thrown .entryCapExceeded
      else
        match levels with
        | 0 => .done entries
        | below + 1 =>
            let absDir ← ctx.directoryAt relDir
            let dirents ← attempt (.readdir absDir)
            ctx.addBatches cap (fun rel listed => walkEntries cap below rel listed)
              (statBatches dirents.length (visible relDir dirents)) entries

def readFolderMetadataMap : VaultProgram (VaultResult MetadataObject) := do
  let path ← ctx.vaultPath folderMetadataRelativePath
  .call (.readFile path) fun
    | .ok content => .done (parseFolderMetadata content)
    | .error .enoent => .done (.ok .empty)
    | .error code => .thrown (.system code)

def writeFolderMetadataMap (metadata : FolderMetadataMap) : VaultProgram Unit := do
  let filePath ← ctx.vaultPath folderMetadataRelativePath
  attempt (.mkdir filePath.dropLast)
  let uuid ← request .randomUUID
  let temporaryPath := filePath.dropLast ++ [temporaryName ctx.pid uuid]
  Program.handle
    (fun failure => do
      attempt (.rm temporaryPath false true)
      .thrown failure)
    (do
      attempt (.writeFile temporaryPath (folderMetadataContent ctx.host metadata))
      attempt (.rename temporaryPath filePath))

/-- `getVaultInfo`. -/
def getVaultInfo : VaultProgram (VaultResult VaultInfo) :=
  classified
    (fun failure =>
      if failure = .entryCapExceeded then
        some ⟨.entryCapExceeded, units "vault exceeds 5000 entries"⟩
      else none)
    (do
      attempt (.mkdir ctx.place)
      let entries ← ctx.walkEntries defaultEntryCap safeLevels [] []
      return .ok ⟨ctx.place.getLastD [], (entries.filter (·.kind = .file)).length,
        (entries.filter (·.kind = .folder)).length⟩)

def entryCapError (cap : Int) : VaultError :=
  ⟨.entryCapExceeded, units "tree exceeds " ++ (if cap < 0 then [45] else []) ++
    decimal cap.natAbs ++ units " entries"⟩

/-- `listVaultTree`. -/
def listVaultTree (under : Option JsString) (depth entryCap : Option Int) :
    VaultProgram (VaultResult (List WalkedEntry)) :=
  classified
    (fun failure =>
      (classifyPathError failure).or
        (if failure = .entryCapExceeded then some (entryCapError (entryCap.getD defaultEntryCap))
        else none))
    (do
      let under ← validatedOptionalPath under .folder
      let absUnder ← ctx.directoryAt under
      let underStat ← statOrNull absUnder
      if underStat.map FileStat.kind ≠ some .folder then
        return fail .notFound "folder not found"
      else
        let entries ← ctx.walkEntries (entryCap.getD defaultEntryCap)
          ((depth.getD defaultDepth) + 1).toNat under []
        match ← ctx.readFolderMetadataMap with
        | .error error => return .error error
        | .ok metadata => return .ok (attachFolderMetadata entries metadata))

/-- The path and the place of a folder that is there, or why it is not found. -/
def folderAt (folderPath : JsString) : VaultProgram (VaultResult (JsString × Place)) := do
  let rel ← validatedPath folderPath .folder
  let abs ← ctx.vaultPath rel
  let stat ← statOrNull abs
  if stat.map FileStat.kind ≠ some .folder then return fail .notFound "folder not found"
  else return .ok (rel, abs)

/-- The path and the place of a file that is there, with its stat, or why it is not found. -/
def fileAt (rel : JsString) : VaultProgram (VaultResult (Place × FileStat)) := do
  let abs ← ctx.vaultPath rel
  match ← statOrNull abs with
  | none => return fail .notFound "file not found"
  | some stat =>
      if stat.kind ≠ .file then return fail .notFound "file not found"
      else return .ok (abs, stat)

/-- `getFolderMetadata`. -/
def getFolderMetadata (folderPath : JsString) : VaultProgram (VaultResult FolderMetadataValue) :=
  classified classifyPathError (do
    match ← ctx.folderAt folderPath with
    | .error error => return .error error
    | .ok (rel, _) =>
        match ← ctx.readFolderMetadataMap with
        | .error error => return .error error
        | .ok metadata => return .ok ⟨rel, metadataAt metadata rel, none⟩)

/-- `listFolderMetadata`. -/
def listFolderMetadata : VaultProgram (VaultResult MetadataObject) := ctx.readFolderMetadataMap

/-- What `setFolderMetadata` checks before its section. -/
def checkSet (folderPath : JsString) (input : FolderMetadataInput) :
    VaultProgram (VaultResult (JsString × FolderMetadataInput)) := do
  let rel ← validatedPath folderPath .folder
  match normalizeFolderMetadataInput input with
  | .error error => return .error error
  | .ok normalizedInput =>
      let abs ← ctx.vaultPath rel
      let stat ← statOrNull abs
      if stat.map FileStat.kind ≠ some .folder then return fail .notFound "folder not found"
      else return .ok (rel, normalizedInput)

/-- The section of `setFolderMetadata`. -/
def setSection (rel : JsString) (normalizedInput : FolderMetadataInput) :
    VaultProgram (VaultResult FolderMetadataValue) := do
  match ← ctx.readFolderMetadataMap with
  | .error error => return .error error
  | .ok metadata =>
      let nextMetadata := applyFolderMetadataInput (metadataAt metadata rel) normalizedInput
      ctx.writeFolderMetadataMap (setMetadata metadata.own rel nextMetadata)
      let audit ← ctx.emitVaultAudit .write .folder rel
        (units "Updated folder metadata for " ++ rel)
      return .ok ⟨rel, nextMetadata, some audit⟩

/-- `setFolderMetadata`. -/
def setFolderMetadata (folderPath : JsString) (input : FolderMetadataInput) :
    VaultProgram (VaultResult FolderMetadataValue) :=
  classified classifyPathError (do
    match ← ctx.checkSet folderPath input with
    | .error error => return .error error
    | .ok (rel, normalizedInput) => ctx.setSection rel normalizedInput)

/-- `readVaultFile`. -/
def readVaultFile (filePath : JsString) : VaultProgram (VaultResult ReadFileValue) :=
  classified classifyPathError (do
    let rel ← validatedPath filePath .file
    if !isEditableArtifact ctx.host rel then return notEditable
    else
      match ← ctx.fileAt rel with
      | .error error => return .error error
      | .ok (abs, stat) =>
          let content ← attempt (.readFile abs)
          return .ok ⟨rel, content, stat.size, stat.mtimeMs⟩)

/-- `readVaultRawFile`. -/
def readVaultRawFile (filePath : JsString) : VaultProgram (VaultResult ReadRawFileValue) :=
  classified classifyPathError (do
    let rel ← validatedPath filePath .artifact
    match ← ctx.fileAt rel with
    | .error error => return .error error
    | .ok (abs, stat) => return .ok ⟨rel, abs, stat.size, stat.mtimeMs⟩)

/-- The write that `writeVaultFile` and `writeVaultRawFile` share. -/
def writeAt (rel : JsString) (content : FileContent) (overwrite : Bool) :
    VaultProgram (VaultResult WriteFileValue) := do
  let abs ← ctx.vaultPath rel
  let existsAlready ← pathExists abs
  if existsAlready ∧ overwrite ≠ true then return fail .alreadyExists "file already exists"
  else
    attempt (.mkdir abs.dropLast)
    attempt (.writeFile abs content)
    let stat ← attempt (.stat abs)
    let audit ← ctx.emitVaultAudit (if existsAlready then .write else .create) .file rel
      (units (if existsAlready then "Wrote " else "Created ") ++ rel)
    return .ok ⟨rel, stat.size, stat.mtimeMs, audit⟩

/-- `writeVaultFile`. -/
def writeVaultFile (path content : JsString) (overwrite : Bool) :
    VaultProgram (VaultResult WriteFileValue) :=
  classified pathOrCollision (do
    let rel ← validatedPath path .file
    if !isEditableArtifact ctx.host rel then return notEditable
    else ctx.writeAt rel (.bytes (Utf8.encode content)) overwrite)

/-- `writeVaultRawFile`. -/
def writeVaultRawFile (path : JsString) (bytes : List UInt8) (overwrite : Bool) :
    VaultProgram (VaultResult WriteFileValue) :=
  classified pathOrCollision (do
    let rel ← validatedPath path .artifact
    ctx.writeAt rel (.bytes bytes) overwrite)

/-- `makeVaultFolder`. -/
def makeVaultFolder (folderPath : JsString) :
    VaultProgram (VaultResult (JsString × Option AuditEntry)) :=
  classified pathOrCollision (do
    let rel ← validatedPath folderPath .folder
    let abs ← ctx.vaultPath rel
    let existed ← pathExists abs
    attempt (.mkdir abs)
    if existed then return .ok (rel, none)
    else
      let audit ← ctx.emitVaultAudit .mkdir .folder rel (units "Created folder " ++ rel)
      return .ok (rel, some audit))

/-- Move a file or a folder to the trash, and give its path there. -/
def moveToTrash (rel : JsString) (abs : Place) : VaultProgram JsString := do
  let trashPath ← trashRelativePath rel
  let trashAbs ← ctx.vaultPath trashPath
  attempt (.mkdir trashAbs.dropLast)
  attempt (.rename abs trashAbs)
  return trashPath

/-- Remove for good, or move to the trash. -/
def removeOrTrash (rel : JsString) (abs : Place) (recursive permanent : Bool) :
    VaultProgram (Option JsString) :=
  if permanent then do
    attempt (.rm abs recursive false)
    return none
  else do
    let trashPath ← ctx.moveToTrash rel abs
    return some trashPath

/-- `deleteVaultFile`. -/
def deleteVaultFile (path : JsString) (permanent : Bool) : VaultProgram (VaultResult DeleteValue) :=
  classified classifyPathError (do
    let rel ← validatedPath path .file
    match ← ctx.fileAt rel with
    | .error error => return .error error
    | .ok (abs, _) =>
        let trashPath ← ctx.removeOrTrash rel abs false permanent
        let audit ← ctx.emitVaultAudit .delete .file rel
          (if permanent then units "Deleted " ++ rel ++ units " permanently"
          else units "Moved " ++ rel ++ units " to trash")
        return .ok ⟨rel, trashPath, permanent, audit⟩)

/-- What `deleteVaultFolder` checks before its section. -/
def checkDelete (path : JsString) (recursive : Bool) :
    VaultProgram (VaultResult (JsString × Place)) := do
  match ← ctx.folderAt path with
  | .error error => return .error error
  | .ok (rel, abs) =>
      let children ← attempt (.readdir abs)
      if children.length > 0 ∧ recursive ≠ true then
        return fail .folderNotEmpty "folder is not empty"
      else return .ok (rel, abs)

/-- The section of `deleteVaultFolder`. -/
def deleteSection (rel : JsString) (abs : Place) (permanent : Bool) :
    VaultProgram (VaultResult DeleteValue) := do
  match ← ctx.readFolderMetadataMap with
  | .error error => return .error error
  | .ok metadata =>
      let trashPath ← ctx.removeOrTrash rel abs true permanent
      ctx.writeFolderMetadataMap (removeFolderMetadataSubtree metadata.own rel)
      let audit ← ctx.emitVaultAudit .delete .folder rel
        (if permanent then units "Deleted folder " ++ rel ++ units " permanently"
        else units "Moved folder " ++ rel ++ units " to trash")
      return .ok ⟨rel, trashPath, permanent, audit⟩

/-- `deleteVaultFolder`. -/
def deleteVaultFolder (path : JsString) (recursive permanent : Bool) :
    VaultProgram (VaultResult DeleteValue) :=
  classified classifyPathError (do
    match ← ctx.checkDelete path recursive with
    | .error error => return .error error
    | .ok (rel, abs) => ctx.deleteSection rel abs permanent)

/-- The ends of a move that passed its checks. -/
structure MoveEnds where
  fromPath : JsString
  toPath : JsString
  fromAbs : Place
  toAbs : Place
  deriving DecidableEq, Repr

/-- The `kind` of a move. -/
def moveKind (folder : Bool) : NodeKind := if folder then .folder else .file

/-- What `moveVaultPath` checks before the path is moved. -/
def checkMove (fromPath toPath : JsString) (folder : Bool) : VaultProgram (VaultResult MoveEnds) := do
  let source ← validatedPath fromPath (if folder then .folder else .file)
  let target ← validatedPath toPath (if folder then .folder else .file)
  if folder ∧ (relativeDescendantPath source target).isSome then
    return fail .invalidPath "folder cannot be moved into itself"
  else
    let fromAbs ← ctx.vaultPath source
    let toAbs ← ctx.vaultPath target
    let stat ← statOrNull fromAbs
    if stat.map FileStat.kind ≠ some (moveKind folder) then
      return fail .notFound (if folder then "folder not found" else "file not found")
    else return .ok ⟨source, target, fromAbs, toAbs⟩

/-- The rename of a move, or a copy to another device and a removal. -/
def renameOrCopy (ends : MoveEnds) (folder : Bool) : VaultProgram Unit :=
  .call (.rename ends.fromAbs ends.toAbs) fun
    | .ok _ => .done ()
    | .error .exdev => do
        attempt (if folder then .cp ends.fromAbs ends.toAbs
          else .copyFile ends.fromAbs ends.toAbs)
        attempt (.rm ends.fromAbs true false)
    | .error code => .thrown (.system code)

/-- What is at the target is removed, if it may be overwritten. -/
def clearTarget (ends : MoveEnds) (overwrite : Bool) : VaultProgram Unit :=
  if overwrite then do
    let occupied ← pathExists ends.toAbs
    if occupied then attempt (.rm ends.toAbs true false) else .done ()
  else .done ()

/-- The metadata of a moved folder is written under its new path. -/
def writeMovedMetadata (ends : MoveEnds) (metadata : Option FolderMetadataMap) : VaultProgram Unit :=
  match metadata with
  | none => .done ()
  | some metadata =>
      ctx.writeFolderMetadataMap (moveFolderMetadataSubtree metadata ends.fromPath ends.toPath)

/-- `movePath`, which writes the metadata of a folder. -/
def movePath (ends : MoveEnds) (folder overwrite : Bool) (metadata : Option FolderMetadataMap) :
    VaultProgram (VaultResult MoveValue) := do
  let occupied ← pathExists ends.toAbs
  if occupied ∧ overwrite ≠ true then
    return fail .pathCollision "target path already exists"
  else
    attempt (.mkdir ends.toAbs.dropLast)
    clearTarget ends overwrite
    renameOrCopy ends folder
    ctx.writeMovedMetadata ends metadata
    let audit ← ctx.writeAuditEntry .move (moveKind folder) ends.toPath
      (some ends.fromPath) (some ends.toPath)
      (units "Moved " ++ ends.fromPath ++ units " to " ++ ends.toPath)
    return .ok ⟨ends.fromPath, ends.toPath, moveKind folder, audit⟩

/-- The section of `moveVaultPath` on a folder. -/
def moveSection (ends : MoveEnds) (overwrite : Bool) : VaultProgram (VaultResult MoveValue) := do
  match ← ctx.readFolderMetadataMap with
  | .error error => return .error error
  | .ok metadata => ctx.movePath ends true overwrite (some metadata.own)

/-- `moveVaultPath`. -/
def moveVaultPath (fromPath toPath : JsString) (folder overwrite : Bool) :
    VaultProgram (VaultResult MoveValue) :=
  classified pathOrCollision (do
    match ← ctx.checkMove fromPath toPath folder with
    | .error error => return .error error
    | .ok ends =>
        if folder then ctx.moveSection ends overwrite
        else ctx.movePath ends false overwrite none)

end VaultContext

end Kb1Daemon
