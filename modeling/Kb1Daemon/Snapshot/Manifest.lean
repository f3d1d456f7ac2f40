import Kb1Daemon.Foundation.IsoTime
import Kb1Daemon.Foundation.Json
import Kb1Daemon.Foundation.SafeInteger
import Kb1Daemon.Snapshot.Paths

/-! # The manifest of a snapshot

A snapshot is an archive of entries, one of which is its manifest. The restore reads the manifest
with the schema below (`manifestSchema`), whose first version has no directories.
-/

namespace Kb1Daemon

open JsString

def snapshotManifestPath : JsString := units "kb1-snapshot.json"
def snapshotCompletionPath : JsString := units "kb1-snapshot.complete"
def snapshotRestoreHelpPath : JsString := units "kb1-restore.txt"

/-- What can be read of an entry, and whether it ends without an error. -/
structure ZipStream where
  bytes : List UInt8
  complete : Bool
  deriving DecidableEq, Repr

/-- An entry of an archive; the stream of its content may fail to open. -/
structure ZipEntry where
  fileName : JsString
  externalFileAttributes : Nat
  uncompressedSize : Nat
  /-- `getLastModDate`. -/
  lastModified : Int
  stream : Option ZipStream
  deriving DecidableEq, Repr

/-- The entries that can be read, and whether these are all. -/
structure ZipArchive where
  entries : List ZipEntry
  complete : Bool
  deriving DecidableEq, Repr

/-- A path of the manifest; the time is that of the date which `new Date` makes of its text. -/
structure PathMetadata where
  path : JsString
  originalPath : Option JsString
  modifiedAt : Int
  mode : Nat
  deriving DecidableEq, Repr

structure ManifestFile extends PathMetadata where
  sizeBytes : Nat
  sha256 : JsString
  deriving DecidableEq, Repr

/-- `item.originalPath ?? item.path`. -/
def PathMetadata.restorePath (item : PathMetadata) : JsString := item.originalPath.getD item.path

/-- A manifest; one of the first version has no list of directories. -/
structure SnapshotManifest where
  createdAt : JsString
  files : List ManifestFile
  directories : Option (List PathMetadata)
  totalFiles : Nat
  totalBytes : Nat
  deriving DecidableEq, Repr

namespace ManifestSchema

def member (members : List (JsString × Json)) (key : String) : Option Json :=
  Json.get members (units key)

def string : Option Json → Option JsString
  | some (.string text) => some text
  | _ => none

/-- `z.string().optional()`. -/
def optionalString : Option Json → Option (Option JsString)
  | none => some none
  | some (.string text) => some (some text)
  | _ => none

/-- `z.number().int().nonnegative()`. -/
def natural : Option Json → Option Nat
  | some (.number text) => safeNatural text
  | _ => none

/-- `z.iso.datetime()`, and the time of the date. -/
def datetime (value : Option Json) : Option (JsString × Int) :=
  (string value).bind fun text => (IsoTime.datetime text).map fun time => (text, time)

def array : Option Json → Option (List Json)
  | some (.array items) => some items
  | _ => none

def object : Option Json → Option (List (JsString × Json))
  | some (.object members) => some members
  | _ => none

def sha256 (value : Option Json) : Option JsString :=
  (string value).filter fun text => text.length = 64 && text.all isHexDigit

def pathMetadata (value : Json) : Option PathMetadata := do
  let members ← object (some value)
  let path ← string (member members "path")
  let originalPath ← optionalString (member members "originalPath")
  let modifiedAt ← datetime (member members "modifiedAt")
  let mode ← natural (member members "mode")
  return ⟨path, originalPath, modifiedAt.2, mode⟩

def manifestFile (value : Json) : Option ManifestFile := do
  let metadata ← pathMetadata value
  let members ← object (some value)
  let sizeBytes ← natural (member members "sizeBytes")
  let sha256 ← sha256 (member members "sha256")
  return ⟨metadata, sizeBytes, sha256⟩

/-- The directories of a version of the schema. -/
def versioned (members : List (JsString × Json)) : Option (Option (List PathMetadata)) := do
  match ← natural (member members "schemaVersion") with
  | 1 => return none
  | 2 => return some (← (← array (member members "directories")).mapM pathMetadata)
  | _ => none

end ManifestSchema

open ManifestSchema in
def manifestSchema (value : Json) : Option SnapshotManifest := do
  let members ← object (some value)
  let directories ← versioned members
  let createdAt ← datetime (member members "createdAt")
  let _ ← datetime (member members "durableAsOf")
  let files ← (← array (member members "files")).mapM manifestFile
  let totals ← object (member members "totals")
  let totalFiles ← natural (member totals "files")
  let totalBytes ← natural (member totals "bytes")
  return ⟨createdAt.1, files, directories, totalFiles, totalBytes⟩

end Kb1Daemon
