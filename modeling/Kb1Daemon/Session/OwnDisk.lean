import Kb1Daemon.Session.Persist

/-! # A session that is alone with its file

While nothing outside the session writes the file, the file holds the content
whose hash is recorded, or the content the persist loop is about to record
(`Session.OwnDisk`). Two things can break this: a persist that fails after its
markdown write has taken effect, and a check whose comparison runs after a
persist has recorded a hash that the content it read does not have. In steps
without these, every comparison finds an expected hash, and only the updates and
edits change the document (`sessionMachine_step_ownDisk`).
-/

namespace Kb1Daemon

namespace Session

variable {R : Runtime}

/-- The recorded hash is that of the file's content. -/
def Recorded (session : Session R) (disk : Disk) : Prop :=
  ∃ content, disk.files session.filePath = some content ∧
    session.lastWrittenHash = some (R.hashContent content)

/-- The file, the recorded and the pending hash at the persist loop's next
step. -/
def PersistAgrees (session : Session R) (disk : Disk) : Prop :=
  match session.persist with
  | .idle | .loopTest | .settle => session.Recorded disk ∧ session.pendingWriteHash = none
  | .readMarkdown path _ _ =>
      path = session.filePath ∧ session.Recorded disk ∧ session.pendingWriteHash = none
  | .compareDisk _ _ diskContent =>
      diskContent = disk.files session.filePath ∧ session.Recorded disk ∧
        session.pendingWriteHash = none
  | .writeMarkdown path content _ =>
      path = session.filePath ∧ session.Recorded disk ∧
        session.pendingWriteHash = some (R.hashContent content)
  | .writeSnapshot content _ _ | .recordHash content _ =>
      disk.files session.filePath = some content ∧
        session.pendingWriteHash = some (R.hashContent content)
  | .awaitTransition | .reconcileSnapshot _ _ => False

/-- The content a check has read is one whose hash it will find recorded or
pending. -/
def CheckAgrees (session : Session R) : Prop :=
  match session.check with
  | .idle => True
  | .readMarkdown path => path = session.filePath
  | .compareDisk diskContent => ∃ content, diskContent = some content ∧
      (session.lastWrittenHash = some (R.hashContent content) ∨
        session.pendingWriteHash = some (R.hashContent content))
  | .reconcileSnapshot _ _ => False

/-- The session is open and its file holds what the session expects. -/
structure OwnDisk (session : Session R) (disk : Disk) : Prop where
  opened : session.opened = true
  live : session.deleted = false
  settled : session.pathTransition = false
  persist : session.PersistAgrees disk
  check : session.CheckAgrees

/-- A persist fails after its markdown write has taken effect, and the content
is not the one already recorded. -/
def FailsLate (session : Session R) (io : Io) : Prop :=
  match session.persist, io with
  | .writeMarkdown _ content _, .failLate => session.lastWrittenHash ≠ some (R.hashContent content)
  | .writeSnapshot content _ _, .fail | .writeSnapshot content _ _, .failLate =>
      session.lastWrittenHash ≠ some (R.hashContent content)
  | _, _ => False

/-- A check has read the file and not compared it yet. -/
def CheckPending (session : Session R) : Prop :=
  match session.check with
  | .compareDisk _ => True
  | _ => False

/-- While a check holds a content it has not compared yet, the persist loop
records the hash of another one, or fails. -/
def Overtakes (session : Session R) (io : Io) : Prop :=
  match session.persist, session.check with
  | .recordHash content _, .compareDisk diskContent =>
      diskContent.map R.hashContent ≠ some (R.hashContent content)
  | _, .compareDisk _ => io ≠ .ok
  | _, _ => False

/-- The file holds a content whose hash a check will find recorded or pending. -/
theorem OwnDisk.file_expected {session : Session R} {disk : Disk} (own : session.OwnDisk disk) :
    ∃ content, disk.files session.filePath = some content ∧
      (session.lastWrittenHash = some (R.hashContent content) ∨
        session.pendingWriteHash = some (R.hashContent content)) := by
  have agrees := own.persist
  unfold PersistAgrees at agrees
  split at agrees
  case h_1 | h_2 | h_3 =>
    obtain ⟨⟨content, file, recorded⟩, _⟩ := agrees
    exact ⟨content, file, .inl recorded⟩
  case h_4 | h_5 | h_6 =>
    obtain ⟨_, ⟨content, file, recorded⟩, _⟩ := agrees
    exact ⟨content, file, .inl recorded⟩
  case h_7 | h_8 =>
    obtain ⟨file, pending⟩ := agrees
    exact ⟨_, file, .inr pending⟩
  all_goals exact agrees.elim

/-- Entering the loop body captures the text and starts the read. -/
theorem startMaterialize_eq {session : Session R} (settled : session.pathTransition = false)
    (live : session.deleted = false) :
    session.startMaterialize =
      { session with
        persistRequested := false
        persist := .readMarkdown session.filePath session.currentContent
          session.pendingPersistAttribution
        pendingPersistAttribution := none } := by
  simp only [startMaterialize, settled, captureContent, live]
  rfl

/-- Entering the loop body keeps the agreement with the disk. -/
theorem ownDisk_startMaterialize {session : Session R} {disk : Disk}
    (opened : session.opened = true) (live : session.deleted = false)
    (settled : session.pathTransition = false) (recorded : session.Recorded disk)
    (clear : session.pendingWriteHash = none) (check : session.CheckAgrees) :
    session.startMaterialize.OwnDisk disk := by
  rw [startMaterialize_eq settled live]
  exact ⟨opened, live, settled, ⟨rfl, recorded, clear⟩, check⟩

/-- Requesting a persist keeps the agreement with the disk. -/
theorem OwnDisk.requestPersist {session : Session R} {disk : Disk} (own : session.OwnDisk disk) :
    session.requestPersist.OwnDisk disk := by
  obtain ⟨opened, live, settled, persist, check⟩ := own
  unfold Session.requestPersist
  split
  · rename_i idle
    rw [PersistAgrees, PersistTask.isIdle_iff.mp idle] at persist
    exact ownDisk_startMaterialize opened live settled persist.1 persist.2 check
  · exact ⟨opened, live, settled, persist, check⟩

/-- A change of the document by an update event keeps the agreement. -/
theorem OwnDisk.handleDocumentUpdate {session : Session R} {disk : Disk}
    (own : session.OwnDisk disk) (attribution : Option R.Attribution) :
    (session.handleDocumentUpdate attribution).OwnDisk disk := by
  rw [Session.handleDocumentUpdate, if_neg (by simp [own.live])]
  exact OwnDisk.requestPersist ⟨own.opened, own.live, own.settled, own.persist, own.check⟩

/-- The agreement does not depend on the document. -/
theorem OwnDisk.withDoc {session : Session R} {disk : Disk} (own : session.OwnDisk disk)
    (doc : R.Doc) : ({ session with doc := doc } : Session R).OwnDisk disk :=
  ⟨own.opened, own.live, own.settled, own.persist, own.check⟩

/-- Without a pending comparison the check agrees with any hashes. -/
theorem CheckAgrees.of_not_pending {session next : Session R} (check : session.CheckAgrees)
    (idle : ¬ session.CheckPending) (same : next.check = session.check)
    (path : next.filePath = session.filePath) : next.CheckAgrees := by
  unfold CheckAgrees CheckPending at *
  rw [same, path]
  split <;> simp_all

/-- Announcing a write leaves a pending comparison right. -/
theorem CheckAgrees.of_pending_none {session next : Session R} (check : session.CheckAgrees)
    (clear : session.pendingWriteHash = none) (same : next.check = session.check)
    (path : next.filePath = session.filePath)
    (hash : next.lastWrittenHash = session.lastWrittenHash) : next.CheckAgrees := by
  unfold CheckAgrees at *
  rw [same, path, hash]
  cases task : session.check with
  | idle => trivial
  | readMarkdown path => simpa only [task] using check
  | compareDisk diskContent =>
      simp only [task, clear, reduceCtorEq, or_false] at check ⊢
      obtain ⟨content, read, recorded⟩ := check
      exact ⟨content, read, .inl recorded⟩
  | reconcileSnapshot snapshot event => simp [task] at check

theorem failWrite_fields (session : Session R) (content : JsString) :
    (session.clearPendingWrite content).failMaterialize.doc = session.doc ∧
      (session.clearPendingWrite content).failMaterialize.warnings = session.warnings := by
  unfold clearPendingWrite
  split <;> exact ⟨rfl, rfl⟩

/-- A failed write keeps the agreement when the recorded hash is still that of
the file. -/
theorem ownDisk_failWrite {session : Session R} {disk : Disk} {content : JsString}
    (opened : session.opened = true) (live : session.deleted = false)
    (settled : session.pathTransition = false) (recorded : session.Recorded disk)
    (pending : session.pendingWriteHash = some (R.hashContent content))
    (check : session.CheckAgrees) (idle : ¬ session.CheckPending) :
    (session.clearPendingWrite content).failMaterialize.OwnDisk disk := by
  simp only [clearPendingWrite, pending, ↓reduceIte]
  exact ⟨opened, live, settled, ⟨recorded, rfl⟩, check.of_not_pending idle rfl rfl⟩

theorem markPersistRecovered_fields (session : Session R) :
    session.markPersistRecovered.opened = session.opened ∧
      session.markPersistRecovered.deleted = session.deleted ∧
      session.markPersistRecovered.pathTransition = session.pathTransition ∧
      session.markPersistRecovered.filePath = session.filePath ∧
      session.markPersistRecovered.lastWrittenHash = session.lastWrittenHash ∧
      session.markPersistRecovered.pendingWriteHash = session.pendingWriteHash ∧
      session.markPersistRecovered.check = session.check ∧
      session.markPersistRecovered.doc = session.doc ∧
      session.markPersistRecovered.warnings = session.warnings := by
  unfold markPersistRecovered
  split <;> simp [emitEvent]

/-- A comparison that finds the recorded hash announces the write. -/
theorem compareDisk_of_recorded {session : Session R} {disk : Disk} {held : JsString}
    (content : JsString) (attribution : Option R.Attribution)
    (recorded : session.lastWrittenHash = some (R.hashContent held))
    (file : disk.files session.filePath = some held) :
    session.compareDisk content attribution (disk.files session.filePath) =
      { session with
        pendingWriteHash := some (R.hashContent content)
        persist := .writeMarkdown session.filePath content attribution } := by
  simp only [compareDisk, recorded, file, Option.map_some, ne_eq, not_true_eq_false, ↓reduceIte]

/-- Recording the hash of the pending write clears it. -/
theorem recordHash_of_pending {session : Session R} {content : JsString}
    (attribution : Option R.Attribution)
    (pending : session.pendingWriteHash = some (R.hashContent content)) :
    session.recordHash content attribution =
      { ((session.recordContent content).markPersistRecovered.emitEvent
          { ((session.recordContent content).markPersistRecovered).createEvent .contentPersisted with
            persistedContent := some content
            attribution := attribution }) with
        pendingWriteHash := none
        persist := .loopTest } := by
  have same : (session.recordContent content).markPersistRecovered.pendingWriteHash =
      some (R.hashContent content) := by
    rw [(session.recordContent content).markPersistRecovered_fields.2.2.2.2.2.1]
    exact pending
  simp only [recordHash, clearPendingWrite, emitEvent, same, ↓reduceIte]

/-- A persist step that neither fails late nor overtakes a pending comparison
keeps the agreement with the disk, the document and the warnings. -/
theorem OwnDisk.persistStep {session next : Session R} {disk nextDisk : Disk} {io : Io}
    (own : session.OwnDisk disk) (early : ¬ session.FailsLate io)
    (order : ¬ session.Overtakes io)
    (stepped : session.persistStep disk io = some (next, nextDisk)) :
    next.OwnDisk nextDisk ∧ next.doc = session.doc ∧ next.warnings = session.warnings := by
  obtain ⟨opened, live, settled, persist, check⟩ := own
  unfold PersistAgrees at persist
  unfold Session.persistStep at stepped
  cases task : session.persist with
  | idle => simp [task] at stepped
  | awaitTransition => simp [task] at persist
  | reconcileSnapshot snapshot event => simp [task] at persist
  | readMarkdown path content attribution =>
      simp only [task] at persist stepped
      obtain ⟨rfl, recorded, clear⟩ := persist
      cases io with
      | ok =>
          obtain ⟨rfl, rfl⟩ := Prod.mk.inj (Option.some.inj stepped)
          exact ⟨⟨opened, live, settled, ⟨rfl, recorded, clear⟩, check⟩, rfl, rfl⟩
      | fail =>
          obtain ⟨rfl, rfl⟩ := Prod.mk.inj (Option.some.inj stepped)
          exact ⟨⟨opened, live, settled, ⟨recorded, clear⟩, check⟩, rfl, rfl⟩
      | failLate => simp at stepped
  | compareDisk content attribution diskContent =>
      simp only [task] at persist stepped
      obtain ⟨rfl, ⟨held, file, recorded⟩, clear⟩ := persist
      cases io with
      | ok =>
          obtain ⟨rfl, rfl⟩ := Prod.mk.inj (Option.some.inj stepped)
          rw [compareDisk_of_recorded content attribution recorded file]
          refine ⟨⟨opened, live, settled, ⟨rfl, ⟨held, file, recorded⟩, rfl⟩, ?_⟩, rfl, rfl⟩
          exact check.of_pending_none clear rfl rfl rfl
      | fail => simp at stepped
      | failLate => simp at stepped
  | writeMarkdown path content attribution =>
      simp only [task] at persist stepped
      obtain ⟨rfl, recorded, pending⟩ := persist
      cases io with
      | ok =>
          obtain ⟨rfl, rfl⟩ := Prod.mk.inj (Option.some.inj stepped)
          exact ⟨⟨opened, live, settled, ⟨disk.write_files_self _ _, pending⟩, check⟩, rfl, rfl⟩
      | fail =>
          obtain ⟨rfl, rfl⟩ := Prod.mk.inj (Option.some.inj stepped)
          have idle : ¬ session.CheckPending := by
            intro held
            unfold CheckPending at held
            cases read : session.check <;> simp_all [Overtakes]
          refine ⟨ownDisk_failWrite opened live settled recorded pending check idle, ?_⟩
          exact failWrite_fields session content
      | failLate =>
          obtain ⟨rfl, rfl⟩ := Prod.mk.inj (Option.some.inj stepped)
          have idle : ¬ session.CheckPending := by
            intro held
            unfold CheckPending at held
            cases read : session.check <;> simp_all [Overtakes]
          have same : session.lastWrittenHash = some (R.hashContent content) := by
            simpa [FailsLate, task] using early
          refine ⟨ownDisk_failWrite opened live settled ⟨content, ?_, same⟩ pending check idle, ?_⟩
          · exact disk.write_files_self _ _
          · exact failWrite_fields session content
  | writeSnapshot content attribution snapshot =>
      simp only [task] at persist stepped
      obtain ⟨file, pending⟩ := persist
      cases io with
      | ok =>
          obtain ⟨rfl, rfl⟩ := Prod.mk.inj (Option.some.inj stepped)
          refine ⟨⟨opened, live, settled, ⟨?_, pending⟩, check⟩, rfl, rfl⟩
          rw [Disk.writeSnapshot_files]
          exact file
      | fail | failLate =>
          have idle : ¬ session.CheckPending := by
            intro held
            unfold CheckPending at held
            cases read : session.check <;> simp_all [Overtakes]
          have same : session.lastWrittenHash = some (R.hashContent content) := by
            simpa [FailsLate, task] using early
          dsimp only at stepped
          split at stepped
          · obtain ⟨rfl, rfl⟩ := Prod.mk.inj (Option.some.inj stepped)
            refine ⟨ownDisk_failWrite opened live settled ⟨content, ?_, same⟩ pending check idle,
              failWrite_fields session content⟩
            simpa using file
          · simp at stepped
  | recordHash content attribution =>
      simp only [task] at persist stepped
      obtain ⟨file, pending⟩ := persist
      cases io with
      | ok =>
          obtain ⟨rfl, rfl⟩ := Prod.mk.inj (Option.some.inj stepped)
          obtain ⟨rOpened, rDeleted, rTransition, rPath, rHash, rPending, rCheck, rDoc, rWarnings⟩ :=
            (session.recordContent content).markPersistRecovered_fields
          rw [recordHash_of_pending attribution pending]
          refine ⟨⟨rOpened.trans opened, rDeleted.trans live, rTransition.trans settled,
            ⟨⟨content, ?_, rHash⟩, rfl⟩, ?_⟩, rDoc, rWarnings⟩
          · change disk.files (session.recordContent content).markPersistRecovered.filePath = _
            rw [rPath]
            exact file
          · unfold CheckAgrees at check ⊢
            dsimp only [emitEvent]
            rw [rCheck, rPath, rHash]
            dsimp only [recordContent]
            cases read : session.check with
            | idle => trivial
            | readMarkdown path => simpa only [read] using check
            | compareDisk diskContent =>
                simp only [read] at check ⊢
                obtain ⟨held, rfl, _⟩ := check
                refine ⟨held, rfl, .inl ?_⟩
                simpa [Overtakes, task, read, eq_comm] using order
            | reconcileSnapshot snapshot event => simp [read] at check
      | fail => simp at stepped
      | failLate => simp at stepped
  | loopTest =>
      simp only [task] at persist stepped
      cases io with
      | ok =>
          obtain ⟨rfl, rfl⟩ := Prod.mk.inj (Option.some.inj stepped)
          unfold Session.loopTest
          split
          · refine ⟨ownDisk_startMaterialize opened live settled persist.1 persist.2 check, ?_⟩
            rw [startMaterialize_eq settled live]
            exact ⟨rfl, rfl⟩
          · exact ⟨⟨opened, live, settled, persist, check⟩, rfl, rfl⟩
      | fail => simp at stepped
      | failLate => simp at stepped
  | settle =>
      simp only [task] at persist stepped
      cases io with
      | ok =>
          obtain ⟨rfl, rfl⟩ := Prod.mk.inj (Option.some.inj stepped)
          exact ⟨⟨opened, live, settled, persist, check⟩, rfl, rfl⟩
      | fail => simp at stepped
      | failLate => simp at stepped

/-- A check step finds an expected hash, and changes neither the document nor
the disk. -/
theorem OwnDisk.checkStep {session next : Session R} {disk nextDisk : Disk} {io : Io}
    (own : session.OwnDisk disk)
    (stepped : session.checkStep disk io = some (next, nextDisk)) :
    next.OwnDisk nextDisk ∧ next.doc = session.doc ∧ next.warnings = session.warnings := by
  obtain ⟨content, file, expected⟩ := own.file_expected
  obtain ⟨opened, live, settled, persist, check⟩ := own
  unfold CheckAgrees at check
  unfold Session.checkStep at stepped
  cases task : session.check with
  | idle => simp [task] at stepped
  | reconcileSnapshot snapshot event => simp [task] at check
  | readMarkdown path =>
      simp only [task] at check stepped
      subst check
      cases io with
      | ok =>
          obtain ⟨rfl, rfl⟩ := Prod.mk.inj (Option.some.inj stepped)
          exact ⟨⟨opened, live, settled, persist, ⟨content, file, expected⟩⟩, rfl, rfl⟩
      | fail =>
          obtain ⟨rfl, rfl⟩ := Prod.mk.inj (Option.some.inj stepped)
          exact ⟨⟨opened, live, settled, persist, trivial⟩, rfl, rfl⟩
      | failLate => simp at stepped
  | compareDisk diskContent =>
      simp only [task] at check stepped
      obtain ⟨read, rfl, known⟩ := check
      cases io with
      | ok =>
          obtain ⟨rfl, rfl⟩ := Prod.mk.inj (Option.some.inj stepped)
          rw [compareCheck, if_pos known]
          exact ⟨⟨opened, live, settled, persist, trivial⟩, rfl, rfl⟩
      | fail => simp at stepped
      | failLate => simp at stepped

/-- Starting a check keeps everything but the check. -/
theorem OwnDisk.startCheck {session next : Session R} {disk : Disk} (own : session.OwnDisk disk)
    (started : session.startCheck = some next) :
    next.OwnDisk disk ∧ next.doc = session.doc ∧ next.warnings = session.warnings := by
  unfold Session.startCheck at started
  split at started
  · split at started
    · obtain rfl := Option.some.inj started
      exact ⟨⟨own.opened, own.live, own.settled, own.persist, rfl⟩, rfl, rfl⟩
    · cases started
  · cases started

/-- A client's update keeps the agreement with the disk. -/
theorem OwnDisk.applyUpdate {session : Session R} {disk : Disk} (own : session.OwnDisk disk)
    (update : R.Update) (attribution : Option R.Attribution) :
    (session.applyUpdate update attribution).OwnDisk disk ∧
      (session.applyUpdate update attribution).doc = R.applyUpdate session.doc update ∧
      (session.applyUpdate update attribution).warnings = session.warnings := by
  unfold Session.applyUpdate
  split
  · exact ⟨(own.withDoc _).handleDocumentUpdate attribution, handleDocumentUpdate_fields _ _⟩
  · exact ⟨own.withDoc _, rfl, rfl⟩

/-- A service edit keeps the agreement with the disk. -/
theorem OwnDisk.applyContent {session : Session R} {disk : Disk} (own : session.OwnDisk disk)
    (content : JsString) (attribution : Option R.Attribution) :
    (session.applyContent content attribution).OwnDisk disk ∧
      (session.applyContent content attribution).doc =
        (if R.text session.doc = content then session.doc
          else R.applyDelta session.doc content) ∧
      (session.applyContent content attribution).warnings = session.warnings := by
  unfold Session.applyContent currentContent
  split
  · exact ⟨own, rfl, rfl⟩
  · exact ⟨(own.withDoc _).handleDocumentUpdate attribution, handleDocumentUpdate_fields _ _⟩

end Session

variable {R : Runtime}

/-- What a step of local origin does to the document. -/
def SessionLabel.change (doc : R.Doc) : SessionLabel R → R.Doc
  | .update received _ => R.applyUpdate doc received
  | .edit content _ => if R.text doc = content then doc else R.applyDelta doc content
  | _ => doc

/-- The step is the session's own, does not fail late and does not overtake a
pending comparison. -/
def Undisturbed (site : Site R) : SessionLabel R → Prop
  | .persist io => ¬ site.session.FailsLate io ∧ ¬ site.session.Overtakes io
  | .external _ => False
  | _ => True

/-- **Undisturbed steps.** A session alone with its file keeps the agreement
with it; only updates and edits change the document, and no comparison warns. -/
theorem sessionMachine_step_ownDisk {site next : Site R} {label : SessionLabel R}
    (undisturbed : Undisturbed site label)
    (stepped : (sessionMachine R).step site label = some next)
    (own : site.session.OwnDisk site.disk) :
    next.session.OwnDisk next.disk ∧
      next.session.doc = SessionLabel.change site.session.doc label ∧
      next.session.warnings = site.session.warnings := by
  simp only [sessionMachine] at stepped
  cases label with
  | update update attribution =>
      dsimp only at stepped
      split at stepped
      · obtain rfl := Option.some.inj stepped
        exact own.applyUpdate update attribution
      · cases stepped
  | edit content attribution =>
      dsimp only at stepped
      split at stepped
      · obtain rfl := Option.some.inj stepped
        exact own.applyContent content attribution
      · cases stepped
  | retry =>
      dsimp only at stepped
      split at stepped
      · obtain rfl := Option.some.inj stepped
        exact ⟨own.requestPersist, Session.requestPersist_fields _⟩
      · cases stepped
  | persist io =>
      obtain ⟨⟨session, disk⟩, moved, rfl⟩ := Option.map_eq_some_iff.mp stepped
      exact own.persistStep undisturbed.1 undisturbed.2 moved
  | startCheck =>
      obtain ⟨session, started, rfl⟩ := Option.map_eq_some_iff.mp stepped
      exact own.startCheck started
  | check io =>
      obtain ⟨⟨session, disk⟩, moved, rfl⟩ := Option.map_eq_some_iff.mp stepped
      exact own.checkStep moved
  | external content => exact undisturbed.elim

end Kb1Daemon
