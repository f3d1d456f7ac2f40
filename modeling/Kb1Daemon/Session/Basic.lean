import Kb1Daemon.Session.Runtime

/-! # The state of a one-file document session

A session binds one markdown file to one Yjs document. Its long-running work is
split at every await: the fields `persist` and `check` hold the step that the
persist loop and the external check take next, together with the values the
suspended functions still use.
-/

namespace Kb1Daemon

/-- The kinds of event a session emits. -/
inductive EventKind where
  | contentPersisted
  | externalMerge
  | externalChange
  | persistFailure
  | persistRecovered
  | docMoved
  | docDeleted
  deriving DecidableEq, Repr

/-- The events of a reconcile that has replaced the text. -/
inductive ExternalEvent where
  | merge
  | change
  deriving DecidableEq, Repr

/-- The kind of a reconcile's event. -/
def ExternalEvent.kind : ExternalEvent → EventKind
  | .merge => .externalMerge
  | .change => .externalChange

/-- An event for the handlers of a session. -/
structure SessionEvent (R : Runtime) where
  kind : EventKind
  path : JsString
  fromPath : Option JsString := none
  toPath : Option JsString := none
  attribution : Option R.Attribution := none
  persistedContent : Option JsString := none

/-- The warning of a persist that finds another content on disk. -/
structure SessionWarning where
  filePath : JsString
  expectedHash : JsString
  actualHash : Option JsString
  deriving DecidableEq, Repr

/-- The fields of a parsed state sidecar; a field of another type reads as
absent. -/
structure StateFile where
  version : Option Nat
  contentHash : Option JsString
  updateBase64 : Option JsString
  deriving DecidableEq, Repr

/-- What a state sidecar holds: a text whose parse or field access throws, or a
JSON value with its fields. -/
inductive Sidecar where
  | malformed
  | parsed (file : StateFile)
  deriving DecidableEq, Repr

/-- The version a session writes into its sidecars. -/
def documentSessionStateVersion : Nat := 1

/-- The files a session reads and writes. -/
structure Disk where
  files : JsString → Option JsString
  sidecars : JsString → Option Sidecar

namespace Disk

/-- Rename a finished temporary file over `path`. -/
def write (disk : Disk) (path content : JsString) : Disk :=
  { disk with files := Function.update disk.files path (some content) }

/-- Put another value at `path`: an outside rewrite, or a deletion. -/
def put (disk : Disk) (path : JsString) (content : Option JsString) : Disk :=
  { disk with files := Function.update disk.files path content }

@[simp] theorem write_files_self (disk : Disk) (path content : JsString) :
    (disk.write path content).files path = some content := Function.update_self ..

@[simp] theorem write_files_of_ne (disk : Disk) {path other : JsString} (content : JsString)
    (different : other ≠ path) : (disk.write path content).files other = disk.files other :=
  Function.update_of_ne different ..

end Disk

/-- A snapshot on its way to the sidecar; without a path nothing is written. -/
structure PendingSnapshot where
  path : Option JsString
  file : StateFile

/-- The sidecar write takes effect. -/
def Disk.writeSnapshot (disk : Disk) (snapshot : PendingSnapshot) : Disk :=
  match snapshot.path with
  | none => disk
  | some path =>
      { disk with sidecars := Function.update disk.sidecars path (some (.parsed snapshot.file)) }

@[simp] theorem Disk.writeSnapshot_files (disk : Disk) (snapshot : PendingSnapshot) :
    (disk.writeSnapshot snapshot).files = disk.files := by
  unfold writeSnapshot
  split <;> rfl

/-- The step the persist loop takes next. -/
inductive PersistTask (R : Runtime) where
  /-- No persist promise is pending. -/
  | idle
  /-- `materialize` waits for the path transition. -/
  | awaitTransition
  /-- The read of the markdown file. -/
  | readMarkdown (path content : JsString) (attribution : Option R.Attribution)
  /-- The comparison of the disk content read with the recorded hash. -/
  | compareDisk (content : JsString) (attribution : Option R.Attribution)
      (diskContent : Option JsString)
  /-- The atomic write of the markdown file. -/
  | writeMarkdown (path content : JsString) (attribution : Option R.Attribution)
  /-- The write of the state sidecar. -/
  | writeSnapshot (content : JsString) (attribution : Option R.Attribution)
      (snapshot : PendingSnapshot)
  /-- The bookkeeping after both writes. -/
  | recordHash (content : JsString) (attribution : Option R.Attribution)
  /-- The sidecar write of a reconcile, with the event to emit after it. -/
  | reconcileSnapshot (snapshot : PendingSnapshot) (event : Option ExternalEvent)
  /-- The loop's test for a newer request. -/
  | loopTest
  /-- The reaction that clears the persist promise. -/
  | settle

/-- No persist promise is pending. -/
def PersistTask.isIdle {R : Runtime} : PersistTask R → Bool
  | .idle => true
  | _ => false

@[simp] theorem PersistTask.isIdle_iff {R : Runtime} {task : PersistTask R} :
    task.isIdle = true ↔ task = .idle := by
  cases task <;> simp [isIdle]

/-- The step an external check takes next. -/
inductive CheckTask where
  /-- No check is running. -/
  | idle
  /-- The read of the markdown file. -/
  | readMarkdown (path : JsString)
  /-- The comparison of the disk content read with the recorded hashes. -/
  | compareDisk (diskContent : Option JsString)
  /-- The sidecar write of a reconcile, with the event to emit after it. -/
  | reconcileSnapshot (snapshot : PendingSnapshot) (event : Option ExternalEvent)

/-- The state of a session. -/
structure Session (R : Runtime) where
  filePath : JsString
  eventPath : JsString
  stateFilePath : Option JsString
  defaultContent : JsString
  createMissingOnOpen : Bool
  doc : R.Doc
  opened : Bool
  deleted : Bool
  watching : Bool
  lastWrittenHash : Option JsString
  lastWrittenContent : Option JsString
  nonEmptyMaterializedContent : Bool
  /-- Set only around the session's own atomic write. -/
  pendingWriteHash : Option JsString
  pendingPersistAttribution : Option R.Attribution
  persistRequested : Bool
  persist : PersistTask R
  /-- A materialization of the running persist loop has failed. -/
  loopFailure : Bool
  /-- Whether each settled persist promise, in order, was rejected. -/
  persistOutcomes : List Bool
  persistFailed : Bool
  /-- The path a pending persist failure names. -/
  persistFailureError : Option JsString
  activePersistFailureEvent : Option (SessionEvent R)
  check : CheckTask
  /-- A path transition promise is installed. -/
  pathTransition : Bool
  events : List (SessionEvent R)
  warnings : List SessionWarning

namespace Session

variable {R : Runtime}

/-- A session object before its first open. -/
def fresh (R : Runtime) (filePath eventPath : JsString) (stateFilePath : Option JsString)
    (defaultContent : Option JsString) : Session R where
  filePath := filePath
  eventPath := eventPath
  stateFilePath := stateFilePath
  defaultContent := defaultContent.getD []
  createMissingOnOpen := defaultContent.isSome
  doc := R.emptyDoc
  opened := false
  deleted := false
  watching := false
  lastWrittenHash := none
  lastWrittenContent := none
  nonEmptyMaterializedContent := false
  pendingWriteHash := none
  pendingPersistAttribution := none
  persistRequested := false
  persist := .idle
  loopFailure := false
  persistOutcomes := []
  persistFailed := false
  persistFailureError := none
  activePersistFailureEvent := none
  check := .idle
  pathTransition := false
  events := []
  warnings := []

/-- The text of the session's document. -/
def currentContent (session : Session R) : JsString := R.text session.doc

/-- An event of the given kind at the session's path. -/
def createEvent (session : Session R) (kind : EventKind) : SessionEvent R :=
  { kind := kind, path := session.eventPath }

/-- Hand an event to the handlers. -/
def emitEvent (session : Session R) (event : SessionEvent R) : Session R :=
  { session with events := session.events ++ [event] }

/-- Mark the session deleted, once. -/
def markDeleted (session : Session R) : Session R :=
  if session.deleted then session
  else
    { session with deleted := true, watching := false, activePersistFailureEvent := none }.emitEvent
      (session.createEvent .docDeleted)

/-- Record a failed materialization and tell the handlers. -/
def markPersistFailed (session : Session R) : Session R :=
  let event := session.createEvent .persistFailure
  { session with
    persistFailed := true
    persistFailureError := some session.filePath
    activePersistFailureEvent := some event }.emitEvent event

/-- Clear a recorded failure and tell the handlers. -/
def markPersistRecovered (session : Session R) : Session R :=
  if session.persistFailed then
    { session with
      persistFailed := false
      persistFailureError := none
      activePersistFailureEvent := none }.emitEvent (session.createEvent .persistRecovered)
  else session

/-- The snapshot `writeStateSnapshot` encodes for a content hash. -/
def snapshot (session : Session R) (contentHash : JsString) : PendingSnapshot where
  path := session.stateFilePath
  file :=
    { version := some documentSessionStateVersion
      contentHash := some contentHash
      updateBase64 := some (R.encodeState session.doc) }

/-- The file's content is, or is to be, `content`. -/
def recordContent (session : Session R) (content : JsString) : Session R :=
  { session with
    lastWrittenHash := some (R.hashContent content)
    lastWrittenContent := some content
    nonEmptyMaterializedContent := !content.isEmpty }

/-- The guard of `hasUnsafeIndependentUpdate`. -/
def hasNonEmptyMaterializedContent (session : Session R) : Bool :=
  !session.deleted && session.nonEmptyMaterializedContent

end Session

end Kb1Daemon
