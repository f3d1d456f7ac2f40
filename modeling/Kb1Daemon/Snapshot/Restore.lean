import Kb1Daemon.Foundation.PosixDisk
import Kb1Daemon.Foundation.StoppingRun
import Kb1Daemon.Foundation.Utf8
import Kb1Daemon.Snapshot.Manifest

/-! # Restoring a snapshot

The restore checks the entries of the archive against its manifest, and then makes the new home
one call at a time. When a call fails, it removes the home if it has made it.
-/

universe u

namespace Kb1Daemon

open JsString

/-- Why a restore fails: the archive cannot be read, a message of its own, the manifest is not
JSON or not of the schema, or a call fails. -/
inductive RestoreFailure where
  | archive
  | message (text : JsString)
  | manifest
  | call
  deriving DecidableEq, Repr

/-- The path of a directory's entry has no slash at its end here. -/
def ZipEntry.path (entry : ZipEntry) : JsString :=
  if entry.fileName.getLast? = some slash then entry.fileName.dropLast else entry.fileName

def ZipEntry.isDirectory (entry : ZipEntry) : Bool := entry.fileName.getLast? = some slash

def safePath (path : JsString) : Except RestoreFailure Unit :=
  (assertSafeSnapshotPath path).mapError .message

/-- Take up an entry of the archive. -/
def listEntry (entries : List ZipEntry) (entry : ZipEntry) :
    Except RestoreFailure (List ZipEntry) := do
  safePath entry.path
  if entries.any (·.fileName = entry.fileName) then
    throw (.message (units "Duplicate ZIP entry: " ++ entry.path))
  let type := entry.externalFileAttributes / 65536 % 65536 &&& 0xf000
  if type ≠ 0 ∧ type ≠ if entry.isDirectory then 0x4000 else 0x8000 then
    throw (.message (units "Snapshot contains a link or special file."))
  return entries ++ [entry]

def listEntries (archive : ZipArchive) : Except RestoreFailure (List ZipEntry) := do
  let entries ← archive.entries.foldlM listEntry []
  if archive.complete then return entries else throw .archive

def findEntry (entries : List ZipEntry) (fileName : JsString) : Option ZipEntry :=
  entries.find? (·.fileName = fileName)

def readSmallEntry (entries : List ZipEntry) (path : JsString) (limit : Nat) :
    Except RestoreFailure JsString :=
  match (findEntry entries path).filter (·.uncompressedSize ≤ limit) with
  | none => throw (.message (units "Snapshot has a missing or oversized " ++ path))
  | some entry =>
      match entry.stream with
      | none => throw .archive
      | some stream => if stream.complete then return Utf8.decode stream.bytes else throw .archive

def manifestLimit : Nat := 64 * 1024 * 1024
def completionLimit : Nat := 128

/-- The manifest, when the completion marker and the totals match it. -/
def readManifest (entries : List ZipEntry) : Except RestoreFailure SnapshotManifest := do
  let text ← readSmallEntry entries snapshotManifestPath manifestLimit
  let manifest ← ((Json.parse text).bind manifestSchema).elim (throw .manifest) pure
  let completion ← readSmallEntry entries snapshotCompletionPath completionLimit
  if completion ≠ manifest.createdAt ++ [10] then
    throw (.message (units "Snapshot completion marker does not match."))
  if manifest.totalFiles ≠ manifest.files.length ∨
      manifest.totalBytes ≠ (manifest.files.map (·.sizeBytes)).sum then
    throw (.message (units "Snapshot totals do not match its manifest."))
  return manifest

/-- The directory of an entry, for a manifest without directories. -/
def ZipEntry.metadata (entry : ZipEntry) : Except RestoreFailure PathMetadata :=
  if (IsoTime.toISOString entry.lastModified).isSome then
    let mode := entry.externalFileAttributes / 65536 % 65536
    return ⟨entry.path, none, entry.lastModified, if mode = 0 then 0o700 else mode⟩
  else throw .archive

def manifestDirectories (entries : List ZipEntry) (manifest : SnapshotManifest) :
    Except RestoreFailure (List PathMetadata) :=
  match manifest.directories with
  | some directories => return directories
  | none => (entries.filter ZipEntry.isDirectory).mapM ZipEntry.metadata

def assertRestorePath (path : JsString) : Except RestoreFailure Unit := do
  safePath path
  if (path.splitOn slash).head? ∉ [some (units "vaults"), some (units ".trash")] then
    throw (.message (units "Snapshot path is outside the vault and trash roots: " ++ path))

/-- The restore paths and the entries that are listed so far. -/
structure ListedPaths where
  restorePaths : List JsString
  expectedEntries : List JsString

/-- Check an item of the manifest; a file has a size. -/
def listItem (entries : List ZipEntry) (size : Option Nat) (listed : ListedPaths)
    (item : PathMetadata) : Except RestoreFailure ListedPaths := do
  safePath item.path
  assertRestorePath item.restorePath
  if item.restorePath ∈ listed.restorePaths then
    throw (.message (units "Duplicate restore path: " ++ item.restorePath))
  let entryPath := if size.isNone then item.path ++ [slash] else item.path
  if entryPath ∈ listed.expectedEntries then
    throw (.message (units "Duplicate manifest path: " ++ entryPath))
  match findEntry entries entryPath with
  | none => throw (.message (units "Snapshot is missing " ++ entryPath))
  | some entry =>
      if size.any (· ≠ entry.uncompressedSize) then
        throw (.message (units "Snapshot size does not match its manifest: " ++ entryPath))
      return ⟨item.restorePath :: listed.restorePaths, entryPath :: listed.expectedEntries⟩

/-- Check the directories, the files and that every entry is listed. -/
def checkItems (entries : List ZipEntry) (directories : List PathMetadata)
    (files : List ManifestFile) : Except RestoreFailure Unit := do
  let listed ← directories.foldlM (listItem entries none)
    ⟨[], [snapshotManifestPath, snapshotCompletionPath, snapshotRestoreHelpPath]⟩
  let listed ← files.foldlM
    (fun listed file => listItem entries (some file.sizeBytes) listed file.toPathMetadata) listed
  match entries.find? (·.fileName ∉ listed.expectedEntries) with
  | some entry =>
      throw (.message (units "Snapshot contains an unlisted entry: " ++ entry.fileName))
  | none => return

/-- `Set.prototype.add`. -/
def addNew (paths : List JsString) (path : JsString) : List JsString :=
  if path ∈ paths then paths else paths ++ [path]

/-- The paths above a path. -/
def parentPaths (path : JsString) : List JsString :=
  (List.range' 1 ((path.splitOn slash).length - 1)).map fun length =>
    Segments.joined slash ((path.splitOn slash).take length)

def addParents (paths : List JsString) (path : JsString) : List JsString :=
  (parentPaths path).foldl addNew paths

/-- The directories and the parents of the files. -/
def directoryPaths (directories : List PathMetadata) (files : List ManifestFile) :
    List JsString :=
  files.foldl (fun paths file => addParents paths file.restorePath)
    (directories.foldl (fun paths item => addParents paths (item.restorePath ++ units "/child")) [])

def pathDepth (path : JsString) : Nat := (path.splitOn slash).length

/-- The host's collation and digest, and the names that its file system has for segments. -/
structure RestoreHost (Name : Type u) where
  /-- `left.localeCompare(right) <= 0`. -/
  localeLe : JsString → JsString → Bool
  total : ∀ left right, localeLe left right = true ∨ localeLe right left = true
  trans : ∀ {first second third}, localeLe first second = true → localeLe second third = true →
    localeLe first third = true
  sha256 : List UInt8 → JsString
  nameOf : JsString → Name

/-- A call of the restore. -/
inductive RestoreCall where
  | makeHome
  | makeDirectory (path : JsString)
  | writeFile (file : ManifestFile) (stream : Option ZipStream)
  | changeMode (path : JsString) (mode : Nat)
  | changeTimes (path : JsString) (modifiedAt : Int)
  deriving DecidableEq, Repr

/-- The calls of a restore after the home is made, and its totals. -/
structure RestorePlan where
  directories : List PathMetadata
  files : List (ManifestFile × Option ZipStream)
  paths : List JsString
  totalFiles : Nat
  totalBytes : Nat

namespace RestorePlan

/-- The paths that are made. -/
def created (plan : RestorePlan) : List JsString :=
  plan.paths ++ plan.files.map fun file => file.1.restorePath

def fileCalls (file : ManifestFile × Option ZipStream) : List RestoreCall :=
  [.writeFile file.1 file.2, .changeMode file.1.restorePath (file.1.mode % 512),
    .changeTimes file.1.restorePath file.1.modifiedAt]

def directoryCalls (item : PathMetadata) : List RestoreCall :=
  [.changeMode item.restorePath (item.mode % 512), .changeTimes item.restorePath item.modifiedAt]

/-- The calls that make the entries. -/
def creation (plan : RestorePlan) : List RestoreCall :=
  plan.paths.map .makeDirectory ++ plan.files.flatMap fileCalls

/-- The calls that give the directories their modes and times. -/
def finish (plan : RestorePlan) : List RestoreCall := plan.directories.flatMap directoryCalls

def calls (plan : RestorePlan) : List RestoreCall := plan.creation ++ plan.finish

end RestorePlan

section Restore

variable {Name : Type u} (host : RestoreHost Name)

/-- Shallower paths come first, and paths of one depth by collation. -/
def RestoreHost.shallower (left right : JsString) : Bool :=
  pathDepth left < pathDepth right || (pathDepth left = pathDepth right && host.localeLe left right)

/-- The calls for a manifest that has been checked. -/
def makePlan (entries : List ZipEntry) (manifest : SnapshotManifest)
    (directories : List PathMetadata) : RestorePlan where
  directories := directories.insertionSort fun left right =>
    pathDepth right.path ≤ pathDepth left.path
  files := manifest.files.map fun file =>
    (file, (findEntry entries file.path).bind (·.stream))
  paths := (directoryPaths directories manifest.files).insertionSort (host.shallower · · = true)
  totalFiles := manifest.totalFiles
  totalBytes := manifest.totalBytes

/-- The checks, which come before the first call. -/
def planRestore (archive : ZipArchive) : Except RestoreFailure RestorePlan := do
  let entries ← listEntries archive
  let manifest ← readManifest entries
  let directories ← manifestDirectories entries manifest
  checkItems entries directories manifest.files
  if manifest.files.any (·.restorePath ∈ directoryPaths directories manifest.files) then
    throw (.message (units "Snapshot file conflicts with a directory."))
  return makePlan host entries manifest directories

/-- A call that fails, or a write that fails after some bytes. -/
inductive RestoreFault where
  | refused
  | cut (count : Nat)
  deriving DecidableEq, Repr

/-- The user, the clock and the faults of a run, by the number of the call. -/
structure RestoreEnvironment where
  privileged : Bool
  now : Nat → Int
  fault : Nat → Option RestoreFault

/-- The segments of a path that is joined to a directory. -/
def joinSegments (directory : List JsString) (path : JsString) : List JsString :=
  (path.splitOn slash).foldl
    (fun before segment =>
      if segment = [] ∨ segment = [dot] then before
      else if segment = [dot, dot] then before.dropLast
      else before ++ [segment])
    directory

abbrev RestoreDisk (Name : Type u) [DecidableEq Name] := Posix.Disk Name (List UInt8)

variable [DecidableEq Name] (environment : RestoreEnvironment) (home : List JsString)

/-- The place of a path of the home. -/
def RestoreHost.place (path : JsString) : List Name := (joinSegments home path).map host.nameOf

def RestoreHost.homePlace : List Name := home.map host.nameOf

/-- The content is the one of the manifest. -/
def ManifestFile.verifies (file : ManifestFile) (bytes : List UInt8) : Bool :=
  bytes.length = file.sizeBytes && host.sha256 bytes = file.sha256

/-- The bytes that a write gets to, and whether it gets to the end. -/
def ZipStream.written (stream : ZipStream) : Option RestoreFault → List UInt8 × Bool
  | some (.cut count) => (stream.bytes.take count, false)
  | _ => (stream.bytes, stream.complete)

/-- A call that changes nothing when it fails. -/
def attemptCall (index : Nat) (disk : RestoreDisk Name) (result : Option (RestoreDisk Name)) :
    RestoreDisk Name × Option RestoreFailure :=
  if (environment.fault index).isSome then (disk, some .call)
  else
    match result with
    | none => (disk, some .call)
    | some next => (next, none)

/-- The disk after a call, and the failure of the call. -/
def performCall (index : Nat) (disk : RestoreDisk Name) (call : RestoreCall) :
    RestoreDisk Name × Option RestoreFailure :=
  match call with
  | .makeHome =>
      attemptCall environment index disk
        (disk.mkdir environment.privileged (host.homePlace home) 0o700 (environment.now index))
  | .makeDirectory path =>
      attemptCall environment index disk
        (disk.mkdir environment.privileged (host.place home path) 0o700 (environment.now index))
  | .writeFile file stream =>
      match stream with
      | none => (disk, some .archive)
      | some stream =>
          let written := stream.written (environment.fault index)
          if environment.fault index = some .refused then (disk, some .call)
          else
            match disk.create environment.privileged (host.place home file.restorePath) written.1
                0o600 (environment.now index) with
            | none => (disk, some .call)
            | some next =>
                if !written.2 then (next, some .archive)
                else if !file.verifies host written.1 then
                  (next, some
                    (.message (units "Snapshot hash verification failed: " ++ file.path)))
                else (next, none)
  | .changeMode path mode =>
      attemptCall environment index disk
        (disk.chmod environment.privileged (host.place home path) mode)
  | .changeTimes path modifiedAt =>
      attemptCall environment index disk
        (disk.utimes environment.privileged (host.place home path) modifiedAt)

/-- Make calls up to one that fails. -/
def performCalls (index : Nat) (disk : RestoreDisk Name) (calls : List RestoreCall) :
    StoppingRun.Result (RestoreDisk Name) RestoreCall RestoreFailure :=
  StoppingRun.run (performCall host environment home) index disk calls

/-- How a restore ends. -/
structure RestoredSnapshot (Name : Type u) [DecidableEq Name] where
  disk : RestoreDisk Name
  calls : List RestoreCall
  result : Except RestoreFailure (Nat × Nat)

/-- `restoreSnapshotArchive`, into a home under the given segments. -/
def restoreSnapshotArchive (archive : ZipArchive) (disk : RestoreDisk Name) : RestoredSnapshot Name :=
  match planRestore host archive with
  | .error failure => ⟨disk, [], .error failure⟩
  | .ok plan =>
      match performCall host environment home 0 disk .makeHome with
      | (next, some failure) => ⟨next, [.makeHome], .error failure⟩
      | (next, none) =>
          let run := performCalls host environment home 1 next plan.calls
          match run.failure with
          | none => ⟨run.state, .makeHome :: run.calls, .ok (plan.totalFiles, plan.totalBytes)⟩
          | some failure =>
              ⟨(run.state.remove environment.privileged (host.homePlace home)
                  (environment.now (run.calls.length + 1))).1,
                .makeHome :: run.calls, .error failure⟩

end Restore

end Kb1Daemon
