import Kb1Daemon.Vault.FileSystem

/-! # Folder metadata

The map from folders to their metadata, as `folders.yml` holds it. What is written is read back,
for valid paths other than the name of the prototype and colors in normal form
(`parseFolderMetadata_folderMetadataContent`).
-/

namespace Kb1Daemon

open JsString

inductive VaultErrorCode where
  | invalidPath
  | invalidMetadata
  | notEditable
  | notFound
  | alreadyExists
  | pathCollision
  | folderNotEmpty
  | entryCapExceeded
  | metadataParseFailed
  deriving DecidableEq, Repr

structure VaultError where
  code : VaultErrorCode
  message : JsString
  deriving DecidableEq, Repr

abbrev VaultResult (Value : Type) := Except VaultError Value

def fail {Value : Type} (code : VaultErrorCode) (message : String) : VaultResult Value :=
  .error ⟨code, units message⟩

def metadataFileFailure {Value : Type} : VaultResult Value :=
  fail .metadataParseFailed "folder metadata file is malformed"

/-- What the operations take from the host: its text functions. -/
structure VaultHost where
  toLowerCase : JsString → JsString
  toLocaleLowerCase : JsString → JsString
  /-- `left.localeCompare(right) <= 0`. -/
  localeLe : JsString → JsString → Bool

structure FolderMetadata where
  color : Option JsString
  deriving DecidableEq, Repr

/-- A color of the input is left out, null or a string. -/
structure FolderMetadataInput where
  color : Option (Option JsString)
  deriving DecidableEq, Repr

abbrev FolderMetadataMap := Table JsString FolderMetadata

/-- The property that an assignment takes as the prototype. -/
def prototypeName : JsString := units "__proto__"

/-- `map[path] = metadata`. -/
def assignMetadata (map : FolderMetadataMap) (path : JsString) (metadata : FolderMetadata) :
    FolderMetadataMap :=
  if path = prototypeName then map else map.set path metadata

/-- A map that is read: its own entries, and the metadata that was assigned as its prototype. -/
structure MetadataObject where
  own : FolderMetadataMap
  prototype : Option FolderMetadata
  deriving DecidableEq

namespace MetadataObject

def empty : MetadataObject := ⟨.empty, none⟩

/-- `map[path] = metadata`; the name of the prototype is no entry. -/
def assign (object : MetadataObject) (path : JsString) (metadata : FolderMetadata) :
    MetadataObject :=
  if path = prototypeName then { object with prototype := some metadata }
  else { object with own := object.own.set path metadata }

/-- The names of the properties of `Object.prototype`. -/
def inheritedNames : List JsString :=
  ["constructor", "__defineGetter__", "__defineSetter__", "hasOwnProperty", "__lookupGetter__",
    "__lookupSetter__", "isPrototypeOf", "propertyIsEnumerable", "toString", "valueOf", "__proto__",
    "toLocaleString"].map units

/-- `map[path]` unless it is undefined, with its color; what is inherited has none, apart from the
prototype itself. -/
def lookup (object : MetadataObject) (path : JsString) : Option FolderMetadata :=
  match object.own.get path with
  | some metadata => some metadata
  | none =>
      if path = prototypeName then some (object.prototype.getD ⟨none⟩)
      else if path ∈ inheritedNames ∨ (object.prototype.isSome ∧ path = units "color") then
        some ⟨none⟩
      else none

end MetadataObject

/-- `map[path] ?? {}`. -/
def metadataAt (object : MetadataObject) (path : JsString) : FolderMetadata :=
  (object.lookup path).getD ⟨none⟩

theorem metadataAt_of_ne {path : JsString} (other : path ≠ prototypeName)
    (object : MetadataObject) : metadataAt object path = (object.own.get path).getD ⟨none⟩ := by
  unfold metadataAt MetadataObject.lookup
  cases object.own.get path with
  | some metadata => rfl
  | none =>
      dsimp only
      rw [if_neg other]
      split_ifs <;> rfl

def isEmptyMetadata (metadata : FolderMetadata) : Bool := metadata.color.isNone

def normalizeFolderMetadataEntry (value : Json) : VaultResult FolderMetadata :=
  match value with
  | .object record =>
      match Json.get record (units "color") with
      | none => .ok ⟨none⟩
      | some (.string color) =>
          match normalizeFolderMetadataColor color with
          | none => metadataFileFailure
          | some normalizedColor => .ok ⟨some normalizedColor⟩
      | some _ => metadataFileFailure
  | _ => metadataFileFailure

def normalizeFolderMetadataInput (input : FolderMetadataInput) : VaultResult FolderMetadataInput :=
  match input.color with
  | some (some color) =>
      match normalizeFolderMetadataColor color with
      | none => fail .invalidMetadata "color must be a hex color, inherit, or null"
      | some normalizedColor => .ok ⟨some (some normalizedColor)⟩
  | _ => .ok input

def applyFolderMetadataInput (current : FolderMetadata) (input : FolderMetadataInput) :
    FolderMetadata :=
  match input.color with
  | none => current
  | some color => ⟨color⟩

/-- One entry of the file, read into the map. -/
def addFolder (map : MetadataObject) (entry : JsString × Json) : VaultResult MetadataObject :=
  if !validateVaultPath entry.1 .folder then metadataFileFailure
  else (normalizeFolderMetadataEntry entry.2).map fun metadata =>
    if isEmptyMetadata metadata then map else map.assign entry.1 metadata

/-- What `readFolderMetadataMap` makes of the content of the file. -/
def parseFolderMetadata (content : FileContent) : VaultResult MetadataObject :=
  match content with
  | .yaml (.object record) =>
      match Json.get record (units "folders") with
      | some (.object folders) => folders.foldlM addFolder .empty
      | _ => metadataFileFailure
  | _ => metadataFileFailure

def metadataEntry (entry : JsString × FolderMetadata) : JsString × Json :=
  (entry.1, .object (entry.2.color.toList.map fun color => (units "color", .string color)))

/-- What `writeFolderMetadataMap` writes, sorted by paths. -/
def folderMetadataContent (host : VaultHost) (metadata : FolderMetadataMap) : FileContent :=
  .yaml (.object [(units "folders", .object
    ((metadata.entries.mergeSort fun left right => host.localeLe left.1 right.1).map
      metadataEntry))])

/-- The map that `setFolderMetadata` writes. -/
def setMetadata (metadata : FolderMetadataMap) (path : JsString) (next : FolderMetadata) :
    FolderMetadataMap :=
  if isEmptyMetadata next then metadata.delete path else assignMetadata metadata path next

def removeFolderMetadataSubtree (metadata : FolderMetadataMap) (deletedPath : JsString) :
    FolderMetadataMap :=
  metadata.keep fun folderPath => folderPath ≠ deletedPath &&
    (relativeDescendantPath deletedPath folderPath).isNone

/-- Where an entry goes in a move, if it stays in the map. -/
def movedKey (fromPath toPath folderPath : JsString) : Option JsString :=
  match relativeDescendantPath fromPath folderPath with
  | some [] => some toPath
  | some fromDescendant => some (posixJoin [toPath, fromDescendant])
  | none =>
      if folderPath = toPath ∨ (relativeDescendantPath toPath folderPath).isSome then none
      else some folderPath

def moveFolderMetadataSubtree (metadata : FolderMetadataMap) (fromPath toPath : JsString) :
    FolderMetadataMap :=
  metadata.entries.foldl
    (fun next entry =>
      match movedKey fromPath toPath entry.1 with
      | none => next
      | some movedPath => assignMetadata next movedPath entry.2)
    .empty

end Kb1Daemon
