import Kb1Daemon.Foundation.Machine
import Kb1Daemon.Session.Basic

/-! # The steps of a session

Every step runs from one suspension point of the session's code to the next. A
change of the document requests a persist; the persist loop reads the file,
compares its hash with the recorded one, writes the markdown file and the
sidecar, and records the new hash; an external check reads the file and
reconciles the document when the hash is neither the recorded nor the pending
one. Each I/O step may fail, the markdown write also after its rename has taken
effect.
-/

namespace Kb1Daemon

/-- How an I/O step ends. -/
inductive Io where
  | ok
  /-- Fails without effect. -/
  | fail
  /-- Fails after the effect: the rename is done, a later sync fails. -/
  | failLate
  deriving DecidableEq, Repr

namespace Session

variable {R : Runtime}

/-- The part of `materialize` between the path transition and the read. -/
def captureContent (session : Session R) : Session R :=
  if session.deleted then { session with persist := .loopTest }
  else
    { session with
      persist := .readMarkdown session.filePath session.currentContent
        session.pendingPersistAttribution
      pendingPersistAttribution := none }

/-- One entry into the body of the persist loop. -/
def startMaterialize (session : Session R) : Session R :=
  if session.pathTransition then
    { session with persistRequested := false, persist := .awaitTransition }
  else { session with persistRequested := false }.captureContent

/-- Request a persist; start the loop when no persist promise is pending. -/
def requestPersist (session : Session R) : Session R :=
  if session.persist.isIdle then
    { session with persistRequested := true, loopFailure := false }.startMaterialize
  else { session with persistRequested := true }

/-- The reaction to an update event of local origin. -/
def handleDocumentUpdate (session : Session R) (attribution : Option R.Attribution) : Session R :=
  if session.deleted then session
  else { session with pendingPersistAttribution := attribution }.requestPersist

/-- Apply a client's update. -/
def applyUpdate (session : Session R) (update : R.Update) (attribution : Option R.Attribution) :
    Session R :=
  if R.firesUpdate session.doc update then
    { session with doc := R.applyUpdate session.doc update }.handleDocumentUpdate attribution
  else { session with doc := R.applyUpdate session.doc update }

/-- Turn the document's text into a content, in one transaction if they
differ. -/
def applyContent (session : Session R) (content : JsString) (attribution : Option R.Attribution) :
    Session R :=
  if session.currentContent = content then session
  else { session with doc := R.applyDelta session.doc content }.handleDocumentUpdate attribution

/-- A materialization throws, and the loop records it. -/
def failMaterialize (session : Session R) : Session R :=
  { session with loopFailure := true, persist := .loopTest }.markPersistFailed

/-- The `finally` around the writes of a content. -/
def clearPendingWrite (session : Session R) (content : JsString) : Session R :=
  if session.pendingWriteHash = some (R.hashContent content) then
    { session with pendingWriteHash := none }
  else session

/-- The document takes over the disk content. The result says whether a
snapshot is to be written, and which event is emitted after it. -/
def reconcileExternalContent (session : Session R) :
    Option JsString → Session R × Option (Option ExternalEvent)
  | none => (session.markDeleted, none)
  | some content =>
      let current := session.currentContent
      if current = content then (session.recordContent content, some none)
      else
        let truncatedToEmpty := !current.isEmpty && content.isEmpty
        let event : ExternalEvent :=
          if !truncatedToEmpty && session.lastWrittenContent = some current then .merge
          else .change
        ({ session with doc := R.applyDelta session.doc content }.recordContent content,
          some (some event))

/-- The warning of a persist that finds another content on disk. -/
def warn (session : Session R) (expectedHash : JsString) (actualHash : Option JsString) :
    Session R :=
  { session with
    warnings := session.warnings ++ [⟨session.filePath, expectedHash, actualHash⟩] }

/-- The hash of the content a reconcile has taken over. -/
def reconciledSnapshot (session : Session R) (content : Option JsString) : PendingSnapshot :=
  session.snapshot (R.hashContent (content.getD []))

/-- The comparison of `materialize`: reconcile when the disk holds something
else than was last written, write otherwise. -/
def compareDisk (session : Session R) (content : JsString) (attribution : Option R.Attribution)
    (diskContent : Option JsString) : Session R :=
  match session.lastWrittenHash with
  | some expected =>
      if diskContent.map R.hashContent ≠ some expected then
        match (session.warn expected (diskContent.map R.hashContent)).reconcileExternalContent
            diskContent with
        | (reconciled, none) => { reconciled with persist := .loopTest }
        | (reconciled, some event) =>
            { reconciled with
              persist := .reconcileSnapshot (reconciled.reconciledSnapshot diskContent) event }
      else
        { session with
          pendingWriteHash := some (R.hashContent content)
          persist := .writeMarkdown session.filePath content attribution }
  | none =>
      { session with
        pendingWriteHash := some (R.hashContent content)
        persist := .writeMarkdown session.filePath content attribution }

/-- The bookkeeping of `materialize` after both writes. -/
def recordHash (session : Session R) (content : JsString) (attribution : Option R.Attribution) :
    Session R :=
  let recovered := (session.recordContent content).markPersistRecovered
  let persisted := recovered.emitEvent
    { recovered.createEvent .contentPersisted with
      persistedContent := some content
      attribution := attribution }
  { persisted.clearPendingWrite content with persist := .loopTest }

/-- The test of the persist loop for a newer request. -/
def loopTest (session : Session R) : Session R :=
  if session.persistRequested then session.startMaterialize
  else { session with persist := .settle }

/-- The reaction that clears the persist promise. -/
def settle (session : Session R) : Session R :=
  { session with
    persist := .idle
    persistOutcomes := session.persistOutcomes ++ [session.loopFailure] }

/-- The event a reconcile emits once its snapshot is written. -/
def emitReconcile (session : Session R) (event : Option ExternalEvent) : Session R :=
  match event with
  | none => session
  | some event => session.emitEvent (session.createEvent event.kind)

/-- The next step of the persist loop. A step that does no I/O does not fail. -/
def persistStep (session : Session R) (disk : Disk) (io : Io) : Option (Session R × Disk) :=
  match session.persist, io with
  | .idle, _ => none
  | .awaitTransition, .ok =>
      if session.pathTransition then none else some (session.captureContent, disk)
  | .readMarkdown path content attribution, .ok =>
      some ({ session with persist := .compareDisk content attribution (disk.files path) }, disk)
  | .readMarkdown _ _ _, .fail => some (session.failMaterialize, disk)
  | .compareDisk content attribution diskContent, .ok =>
      some (session.compareDisk content attribution diskContent, disk)
  | .writeMarkdown path content attribution, .ok =>
      some ({ session with
        persist := .writeSnapshot content attribution
          (session.snapshot (R.hashContent content)) }, disk.write path content)
  | .writeMarkdown _ content _, .fail =>
      some ((session.clearPendingWrite content).failMaterialize, disk)
  | .writeMarkdown path content _, .failLate =>
      some ((session.clearPendingWrite content).failMaterialize, disk.write path content)
  | .writeSnapshot content attribution snapshot, .ok =>
      some ({ session with persist := .recordHash content attribution },
        disk.writeSnapshot snapshot)
  | .writeSnapshot content _ snapshot, .fail =>
      if snapshot.path.isSome then
        some ((session.clearPendingWrite content).failMaterialize, disk)
      else none
  | .writeSnapshot content _ snapshot, .failLate =>
      if snapshot.path.isSome then
        some ((session.clearPendingWrite content).failMaterialize, disk.writeSnapshot snapshot)
      else none
  | .recordHash content attribution, .ok => some (session.recordHash content attribution, disk)
  | .reconcileSnapshot snapshot event, .ok =>
      some ({ session.emitReconcile event with persist := .loopTest }, disk.writeSnapshot snapshot)
  | .reconcileSnapshot snapshot _, .fail =>
      if snapshot.path.isSome then some (session.failMaterialize, disk) else none
  | .reconcileSnapshot snapshot _, .failLate =>
      if snapshot.path.isSome then some (session.failMaterialize, disk.writeSnapshot snapshot)
      else none
  | .loopTest, .ok => some (session.loopTest, disk)
  | .settle, .ok => some (session.settle, disk)
  | _, _ => none

/-- The watcher or the poll timer starts an external check. -/
def startCheck (session : Session R) : Option (Session R) :=
  match session.check with
  | .idle =>
      if session.watching ∧ session.opened ∧ session.lastWrittenHash.isSome then
        some { session with check := .readMarkdown session.filePath }
      else none
  | _ => none

/-- The comparison of an external check. -/
def compareCheck (session : Session R) (diskContent : Option JsString) : Session R :=
  match diskContent with
  | none => { session.markDeleted with check := .idle }
  | some content =>
      if session.lastWrittenHash = some (R.hashContent content) ∨
          session.pendingWriteHash = some (R.hashContent content) then
        { session with check := .idle }
      else
        match session.reconcileExternalContent (some content) with
        | (reconciled, none) => { reconciled with check := .idle }
        | (reconciled, some event) =>
            { reconciled with
              check := .reconcileSnapshot (reconciled.reconciledSnapshot (some content)) event }

/-- The next step of an external check. -/
def checkStep (session : Session R) (disk : Disk) (io : Io) : Option (Session R × Disk) :=
  match session.check, io with
  | .readMarkdown path, .ok =>
      some ({ session with check := .compareDisk (disk.files path) }, disk)
  | .readMarkdown _, .fail => some ({ session with check := .idle }, disk)
  | .compareDisk diskContent, .ok => some (session.compareCheck diskContent, disk)
  | .reconcileSnapshot snapshot event, .ok =>
      some ({ session.emitReconcile event with check := .idle }, disk.writeSnapshot snapshot)
  | .reconcileSnapshot snapshot _, .fail =>
      if snapshot.path.isSome then some ({ session with check := .idle }, disk) else none
  | .reconcileSnapshot snapshot _, .failLate =>
      if snapshot.path.isSome then
        some ({ session with check := .idle }, disk.writeSnapshot snapshot)
      else none
  | _, _ => none

/-- The fields that no step of a session changes: only an open and a path
transition write them. -/
structure Binding where
  filePath : JsString
  eventPath : JsString
  stateFilePath : Option JsString
  opened : Bool
  pathTransition : Bool

/-- The fields that a change of the document, the persist loop and a reconcile
leave as they are. -/
structure Frame extends Binding where
  check : CheckTask

/-- The frame of a session. -/
def frame (session : Session R) : Frame where
  filePath := session.filePath
  eventPath := session.eventPath
  stateFilePath := session.stateFilePath
  opened := session.opened
  pathTransition := session.pathTransition
  check := session.check

/-- The binding of a session. -/
def binding (session : Session R) : Binding := session.frame.toBinding

/-- The paths of a session are part of its frame. -/
theorem binding_of_frame {session next : Session R} (same : next.frame = session.frame) :
    next.binding = session.binding := congrArg Frame.toBinding same

/-- Capturing the text changes the schedule only. -/
theorem frame_captureContent (session : Session R) :
    session.captureContent.frame = session.frame := by
  unfold captureContent
  split <;> rfl

/-- Entering the loop body changes the schedule only. -/
theorem frame_startMaterialize (session : Session R) :
    session.startMaterialize.frame = session.frame := by
  unfold startMaterialize
  split
  · rfl
  · exact frame_captureContent _

/-- Entering the loop body deletes nothing. -/
theorem deleted_startMaterialize (session : Session R) :
    session.startMaterialize.deleted = session.deleted := by
  unfold startMaterialize captureContent
  split
  · rfl
  · split <;> rfl

/-- A request to persist changes the schedule only. -/
theorem frame_requestPersist (session : Session R) :
    session.requestPersist.frame = session.frame := by
  unfold requestPersist
  split
  · exact frame_startMaterialize _
  · rfl

/-- A request to persist deletes nothing. -/
theorem deleted_requestPersist (session : Session R) :
    session.requestPersist.deleted = session.deleted := by
  unfold requestPersist
  split
  · exact deleted_startMaterialize _
  · rfl

/-- An update of the document changes the frame in no way. -/
theorem frame_handleDocumentUpdate (session : Session R) (attribution : Option R.Attribution) :
    (session.handleDocumentUpdate attribution).frame = session.frame := by
  unfold handleDocumentUpdate
  split
  · rfl
  · exact frame_requestPersist _

/-- Applying an update leaves the frame alone. -/
theorem frame_applyUpdate (session : Session R) (update : R.Update)
    (attribution : Option R.Attribution) :
    (session.applyUpdate update attribution).frame = session.frame := by
  unfold applyUpdate
  split
  · exact frame_handleDocumentUpdate _ attribution
  · rfl

/-- Replacing the text leaves the frame alone. -/
theorem frame_applyContent (session : Session R) (content : JsString)
    (attribution : Option R.Attribution) :
    (session.applyContent content attribution).frame = session.frame := by
  unfold applyContent
  split
  · rfl
  · exact frame_handleDocumentUpdate _ attribution

/-- The mark of a deletion is not part of the frame. -/
theorem frame_markDeleted (session : Session R) : session.markDeleted.frame = session.frame := by
  unfold markDeleted
  split <;> rfl

/-- A recovery from failed saves leaves the frame alone. -/
theorem frame_markPersistRecovered (session : Session R) :
    session.markPersistRecovered.frame = session.frame := by
  unfold markPersistRecovered
  split <;> rfl

/-- Forgetting the write under way leaves the frame alone. -/
theorem frame_clearPendingWrite (session : Session R) (content : JsString) :
    (session.clearPendingWrite content).frame = session.frame := by
  unfold clearPendingWrite
  split <;> rfl

/-- Telling of a replaced text leaves the frame alone. -/
theorem frame_emitReconcile (session : Session R) (event : Option ExternalEvent) :
    (session.emitReconcile event).frame = session.frame := by
  cases event <;> rfl

/-- Taking over what is on disk leaves the frame alone. -/
theorem frame_reconcileExternalContent (session : Session R) (content : Option JsString) :
    (session.reconcileExternalContent content).1.frame = session.frame := by
  cases content with
  | none => exact frame_markDeleted session
  | some content =>
      dsimp only [reconcileExternalContent]
      split <;> rfl

/-- The comparison with the disk leaves the frame alone. -/
theorem frame_compareDisk (session : Session R) (content : JsString)
    (attribution : Option R.Attribution) (diskContent : Option JsString) :
    (session.compareDisk content attribution diskContent).frame = session.frame := by
  unfold compareDisk
  split
  · rename_i expected _
    split
    · have reconciled := frame_reconcileExternalContent
        (session.warn expected (diskContent.map R.hashContent)) diskContent
      split
      · rename_i result same
        rw [same] at reconciled
        exact reconciled
      · rename_i result event same
        rw [same] at reconciled
        exact reconciled
    · rfl
  · rfl

/-- Recording a written content leaves the frame alone. -/
theorem frame_recordHash (session : Session R) (content : JsString)
    (attribution : Option R.Attribution) :
    (session.recordHash content attribution).frame = session.frame := by
  have recovered := frame_markPersistRecovered (session.recordContent content)
  have cleared := frame_clearPendingWrite
    ((session.recordContent content).markPersistRecovered.emitEvent
      { ((session.recordContent content).markPersistRecovered).createEvent .contentPersisted with
        persistedContent := some content
        attribution := attribution }) content
  exact cleared.trans recovered

/-- The test of the loop leaves the frame alone. -/
theorem frame_loopTest (session : Session R) : session.loopTest.frame = session.frame := by
  unfold loopTest
  split
  · exact frame_startMaterialize session
  · rfl

/-- No step of the persist loop touches the frame. -/
theorem frame_persistStep {session next : Session R} {disk nextDisk : Disk} {io : Io}
    (stepped : session.persistStep disk io = some (next, nextDisk)) :
    next.frame = session.frame := by
  unfold persistStep at stepped
  split at stepped
  all_goals try split at stepped
  all_goals cases stepped
  all_goals first
    | rfl
    | exact frame_captureContent session
    | exact frame_compareDisk session _ _ _
    | exact frame_recordHash session _ _
    | exact frame_emitReconcile session _
    | exact frame_loopTest session
    | exact frame_clearPendingWrite session _

/-- A request to persist touches neither the document nor the warnings. -/
theorem requestPersist_fields (session : Session R) :
    session.requestPersist.doc = session.doc ∧
      session.requestPersist.warnings = session.warnings := by
  unfold requestPersist startMaterialize captureContent
  split
  · split
    · exact ⟨rfl, rfl⟩
    · split <;> exact ⟨rfl, rfl⟩
  · exact ⟨rfl, rfl⟩

/-- The handler of an update touches neither the document nor the warnings. -/
theorem handleDocumentUpdate_fields (session : Session R) (attribution : Option R.Attribution) :
    (session.handleDocumentUpdate attribution).doc = session.doc ∧
      (session.handleDocumentUpdate attribution).warnings = session.warnings := by
  unfold handleDocumentUpdate
  split
  · exact ⟨rfl, rfl⟩
  · exact requestPersist_fields _

/-- A check of the disk leaves the paths of the session alone. -/
theorem binding_compareCheck (session : Session R) (diskContent : Option JsString) :
    (session.compareCheck diskContent).binding = session.binding := by
  unfold compareCheck
  cases diskContent with
  | none =>
      have bound := binding_of_frame (frame_markDeleted session)
      exact bound
  | some content =>
      dsimp only
      split
      · rfl
      · have reconciled := frame_reconcileExternalContent session (some content)
        split
        · rename_i result same
          rw [same] at reconciled
          have bound := binding_of_frame reconciled
          exact bound
        · rename_i result event same
          rw [same] at reconciled
          have bound := binding_of_frame reconciled
          exact bound

/-- No step of a check touches the binding. -/
theorem binding_checkStep {session next : Session R} {disk nextDisk : Disk} {io : Io}
    (stepped : session.checkStep disk io = some (next, nextDisk)) :
    next.binding = session.binding := by
  unfold checkStep at stepped
  split at stepped
  all_goals try split at stepped
  all_goals cases stepped
  all_goals first
    | rfl
    | exact binding_compareCheck session _
    | (unfold emitReconcile; split <;> rfl)

/-- What a transaction of the document, or none, makes of it. -/
inductive Transacts (R : Runtime) (doc : R.Doc) : R.Doc → Prop where
  | none : Transacts R doc doc
  | update (update : R.Update) : Transacts R doc (R.applyUpdate doc update)
  | delta (content : JsString) : Transacts R doc (R.applyDelta doc content)

/-- An applied update is in the document. -/
theorem doc_applyUpdate (session : Session R) (update : R.Update)
    (attribution : Option R.Attribution) :
    (session.applyUpdate update attribution).doc = R.applyUpdate session.doc update := by
  unfold applyUpdate
  split
  · exact (handleDocumentUpdate_fields _ attribution).1
  · rfl

/-- Applying an update is a transaction of the document. -/
theorem transacts_applyUpdate (session : Session R) (update : R.Update)
    (attribution : Option R.Attribution) :
    Transacts R session.doc (session.applyUpdate update attribution).doc := by
  rw [doc_applyUpdate]
  exact .update update

/-- Replacing the text is a transaction of the document, or none. -/
theorem transacts_applyContent (session : Session R) (content : JsString)
    (attribution : Option R.Attribution) :
    Transacts R session.doc (session.applyContent content attribution).doc := by
  unfold applyContent
  split
  · exact .none
  · rw [(handleDocumentUpdate_fields _ attribution).1]
    exact .delta content

/-- Taking over what is on disk is a transaction, or none. -/
theorem transacts_reconcileExternalContent (session : Session R) (content : Option JsString) :
    Transacts R session.doc (session.reconcileExternalContent content).1.doc := by
  cases content with
  | none =>
      dsimp only [reconcileExternalContent, markDeleted]
      split <;> exact .none
  | some content =>
      dsimp only [reconcileExternalContent]
      split
      · exact .none
      · exact .delta content

/-- The comparison with the disk takes at most one transaction. -/
theorem transacts_compareDisk (session : Session R) (content : JsString)
    (attribution : Option R.Attribution) (diskContent : Option JsString) :
    Transacts R session.doc (session.compareDisk content attribution diskContent).doc := by
  unfold compareDisk
  split
  · rename_i expected _
    split
    · have reconciled := transacts_reconcileExternalContent
        (session.warn expected (diskContent.map R.hashContent)) diskContent
      split
      · rename_i result same
        rw [same] at reconciled
        exact reconciled
      · rename_i result event same
        rw [same] at reconciled
        exact reconciled
    · exact .none
  · exact .none

/-- A check of the disk takes at most one transaction. -/
theorem transacts_compareCheck (session : Session R) (diskContent : Option JsString) :
    Transacts R session.doc (session.compareCheck diskContent).doc := by
  unfold compareCheck
  cases diskContent with
  | none => exact transacts_reconcileExternalContent session none
  | some content =>
      dsimp only
      split
      · exact .none
      · have reconciled := transacts_reconcileExternalContent session (some content)
        split
        · rename_i result same
          rw [same] at reconciled
          exact reconciled
        · rename_i result event same
          rw [same] at reconciled
          exact reconciled

/-- Entering the loop body leaves the document alone. -/
theorem doc_startMaterialize (session : Session R) :
    session.startMaterialize.doc = session.doc := by
  unfold startMaterialize captureContent
  split
  · rfl
  · split <;> rfl

/-- Recording a written content leaves the document alone. -/
theorem doc_recordHash (session : Session R) (content : JsString)
    (attribution : Option R.Attribution) :
    (session.recordHash content attribution).doc = session.doc := by
  unfold recordHash clearPendingWrite markPersistRecovered
  dsimp only
  split <;> split <;> rfl

/-- Only the comparison of the persist loop changes the document. -/
theorem transacts_persistStep {session next : Session R} {disk nextDisk : Disk} {io : Io}
    (stepped : session.persistStep disk io = some (next, nextDisk)) :
    Transacts R session.doc next.doc := by
  unfold persistStep at stepped
  split at stepped
  all_goals try split at stepped
  all_goals cases stepped
  all_goals first
    | exact .none
    | exact transacts_compareDisk session _ _ _
    | (unfold captureContent; split <;> exact .none)
    | (rw [doc_recordHash]; exact .none)
    | (unfold loopTest; split <;> first | exact .none | (rw [doc_startMaterialize]; exact .none))
    | (unfold emitReconcile; split <;> exact .none)
    | (unfold clearPendingWrite; split <;> exact .none)

/-- Only the comparison of a check changes the document. -/
theorem transacts_checkStep {session next : Session R} {disk nextDisk : Disk} {io : Io}
    (stepped : session.checkStep disk io = some (next, nextDisk)) :
    Transacts R session.doc next.doc := by
  unfold checkStep at stepped
  split at stepped
  all_goals try split at stepped
  all_goals cases stepped
  all_goals first
    | exact .none
    | exact transacts_compareCheck session _
    | (unfold emitReconcile; split <;> exact .none)

end Session

/-- A session together with the disk its file lives on. -/
structure Site (R : Runtime) where
  session : Session R
  disk : Disk

/-- The steps of a session and of the world around it. -/
inductive SessionLabel (R : Runtime) where
  /-- A client's update is applied. -/
  | update (update : R.Update) (attribution : Option R.Attribution)
  /-- A service call turns the text into a content. -/
  | edit (content : JsString) (attribution : Option R.Attribution)
  /-- A flush requests a persist again after a failure. -/
  | retry
  /-- The persist loop takes a step. -/
  | persist (io : Io)
  /-- A check is started. -/
  | startCheck
  /-- The running check takes a step. -/
  | check (io : Io)
  /-- Something outside the session rewrites or deletes the file. -/
  | external (content : Option JsString)

/-- The session machine. -/
def sessionMachine (R : Runtime) : Machine (Site R) (SessionLabel R) where
  step site label :=
    match label with
    | .update update attribution =>
        if site.session.opened ∧ ¬ site.session.deleted then
          some { site with session := site.session.applyUpdate update attribution }
        else none
    | .edit content attribution =>
        if site.session.opened ∧ ¬ site.session.deleted then
          some { site with session := site.session.applyContent content attribution }
        else none
    | .retry =>
        if site.session.persistFailureError.isSome then
          some { site with session := site.session.requestPersist }
        else none
    | .persist io =>
        (site.session.persistStep site.disk io).map fun next => ⟨next.1, next.2⟩
    | .startCheck => site.session.startCheck.map fun session => { site with session := session }
    | .check io => (site.session.checkStep site.disk io).map fun next => ⟨next.1, next.2⟩
    | .external content =>
        some { site with disk := site.disk.put site.session.filePath content }

/-- Every step of a session changes its document by a transaction, if at all. -/
theorem sessionMachine_transacts {R : Runtime} {site next : Site R} {label : SessionLabel R}
    (stepped : (sessionMachine R).step site label = some next) :
    Session.Transacts R site.session.doc next.session.doc := by
  simp only [sessionMachine] at stepped
  cases label with
  | update update attribution =>
      dsimp only at stepped
      split at stepped
      · obtain rfl := Option.some.inj stepped
        exact Session.transacts_applyUpdate _ update attribution
      · cases stepped
  | edit content attribution =>
      dsimp only at stepped
      split at stepped
      · obtain rfl := Option.some.inj stepped
        exact Session.transacts_applyContent _ content attribution
      · cases stepped
  | retry =>
      dsimp only at stepped
      split at stepped
      · obtain rfl := Option.some.inj stepped
        rw [(Session.requestPersist_fields _).1]
        exact .none
      · cases stepped
  | persist io =>
      obtain ⟨⟨session, disk⟩, moved, rfl⟩ := Option.map_eq_some_iff.mp stepped
      exact Session.transacts_persistStep moved
  | startCheck =>
      obtain ⟨session, started, rfl⟩ := Option.map_eq_some_iff.mp stepped
      unfold Session.startCheck at started
      split at started
      · split at started
        · obtain rfl := Option.some.inj started
          exact .none
        · cases started
      · cases started
  | check io =>
      obtain ⟨⟨session, disk⟩, moved, rfl⟩ := Option.map_eq_some_iff.mp stepped
      exact Session.transacts_checkStep moved
  | external content =>
      obtain rfl := Option.some.inj stepped
      exact .none

/-- No step of a session changes its binding. -/
theorem sessionMachine_binding {R : Runtime} {site next : Site R} {label : SessionLabel R}
    (stepped : (sessionMachine R).step site label = some next) :
    next.session.binding = site.session.binding := by
  simp only [sessionMachine] at stepped
  cases label with
  | update update attribution =>
      dsimp only at stepped
      split at stepped
      · obtain rfl := Option.some.inj stepped
        exact Session.binding_of_frame (Session.frame_applyUpdate _ update attribution)
      · cases stepped
  | edit content attribution =>
      dsimp only at stepped
      split at stepped
      · obtain rfl := Option.some.inj stepped
        exact Session.binding_of_frame (Session.frame_applyContent _ content attribution)
      · cases stepped
  | retry =>
      dsimp only at stepped
      split at stepped
      · obtain rfl := Option.some.inj stepped
        exact Session.binding_of_frame (Session.frame_requestPersist _)
      · cases stepped
  | persist io =>
      obtain ⟨⟨session, disk⟩, moved, rfl⟩ := Option.map_eq_some_iff.mp stepped
      exact Session.binding_of_frame (Session.frame_persistStep moved)
  | startCheck =>
      obtain ⟨session, started, rfl⟩ := Option.map_eq_some_iff.mp stepped
      unfold Session.startCheck at started
      split at started
      · split at started
        · obtain rfl := Option.some.inj started
          rfl
        · cases started
      · cases started
  | check io =>
      obtain ⟨⟨session, disk⟩, moved, rfl⟩ := Option.map_eq_some_iff.mp stepped
      exact Session.binding_checkStep moved
  | external content =>
      obtain rfl := Option.some.inj stepped
      rfl

end Kb1Daemon
