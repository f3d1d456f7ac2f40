import Kb1Daemon.Session.OwnWrites

/-! # A session whose file follows its text

In steps without failures, a session alone with its file keeps more than the
agreement of hashes: while the persist loop rests the file holds the current
text, and while it runs it carries the current text or has a newer request
(`Session.Steady`). A path transition may stand in the way of the loop; then the
loop waits, and the session touches no file (`Session.Paused`).
-/

namespace Kb1Daemon

namespace Session

variable {R : Runtime}

/-- The file holds the content last recorded. -/
structure Written (session : Session R) (disk : Disk) (content : JsString) : Prop where
  file : disk.files session.filePath = some content
  recorded : session.lastWrittenContent = some content
  hash : session.lastWrittenHash = some (R.hashContent content)

/-- The content is the current text, or a newer request is noted. -/
def Carries (session : Session R) (content : JsString) : Prop :=
  session.persistRequested = true ∨ content = session.currentContent

/-- The file, the recorded content and the text at the persist loop's next step. -/
def Materializes (session : Session R) (disk : Disk) : Prop :=
  match session.persist with
  | .idle | .settle =>
      session.Written disk session.currentContent ∧ session.pendingWriteHash = none
  | .loopTest =>
      ∃ held, session.Written disk held ∧ session.Carries held ∧ session.pendingWriteHash = none
  | .awaitTransition => ∃ held, session.Written disk held ∧ session.pendingWriteHash = none
  | .readMarkdown path content _ =>
      ∃ held, session.Written disk held ∧ session.Carries content ∧
        session.pendingWriteHash = none ∧ path = session.filePath
  | .compareDisk content _ diskContent =>
      ∃ held, session.Written disk held ∧ session.Carries content ∧
        session.pendingWriteHash = none ∧ diskContent = some held
  | .writeMarkdown path content _ =>
      ∃ held, session.Written disk held ∧ session.Carries content ∧
        session.pendingWriteHash = some (R.hashContent content) ∧ path = session.filePath
  | .writeSnapshot content _ _ | .recordHash content _ =>
      disk.files session.filePath = some content ∧ session.Carries content ∧
        session.pendingWriteHash = some (R.hashContent content)
  | .reconcileSnapshot _ _ => False

/-- The agreement does not depend on the check, the watcher, the transition or
the events. -/
theorem Materializes.congr {session next : Session R} {disk : Disk}
    (persist : session.Materializes disk) (task : next.persist = session.persist)
    (path : next.filePath = session.filePath) (doc : next.doc = session.doc)
    (recorded : next.lastWrittenContent = session.lastWrittenContent)
    (hash : next.lastWrittenHash = session.lastWrittenHash)
    (pending : next.pendingWriteHash = session.pendingWriteHash)
    (requested : next.persistRequested = session.persistRequested) : next.Materializes disk := by
  have written : ∀ held, session.Written disk held → next.Written disk held := by
    intro held file
    refine ⟨?_, recorded.trans file.recorded, hash.trans file.hash⟩
    rw [path]
    exact file.file
  unfold Materializes Carries currentContent at *
  rw [task, path, doc, pending, requested]
  split at persist
  all_goals first
    | exact ⟨written _ persist.1, persist.2⟩
    | (obtain ⟨held, file, rest⟩ := persist
       exact ⟨held, written held file, rest⟩)
    | exact persist

/-- No persist of the session has failed. -/
structure Faultless (session : Session R) : Prop where
  loop : session.loopFailure = false
  outcomes : ∀ rejected ∈ session.persistOutcomes, rejected = false
  recovered : session.persistFailed = false
  error : session.persistFailureError = none

/-- The session is open and its file follows its text. -/
structure Steady (session : Session R) (disk : Disk) : Prop where
  opened : session.opened = true
  live : session.deleted = false
  persist : session.Materializes disk
  check : session.CheckAgrees
  faultless : session.Faultless

/-- Only the session's own file matters. -/
theorem Steady.congr {session : Session R} {disk other : Disk} (steady : session.Steady disk)
    (same : other.files session.filePath = disk.files session.filePath) :
    session.Steady other := by
  obtain ⟨opened, live, persist, check, faultless⟩ := steady
  have written : ∀ content, session.Written disk content → session.Written other content :=
    fun content held => ⟨same.trans held.file, held.recorded, held.hash⟩
  refine ⟨opened, live, ?_, check, faultless⟩
  unfold Materializes at *
  split at persist
  all_goals first
    | exact ⟨written _ persist.1, persist.2⟩
    | (obtain ⟨held, file, rest⟩ := persist
       exact ⟨held, written held file, rest⟩)
    | exact ⟨same.trans persist.1, persist.2⟩
    | exact persist.elim

/-- The file holds the text, and no persist has been rejected. -/
structure Saved (session : Session R) (disk : Disk) : Prop where
  file : disk.files session.filePath = some session.currentContent
  recorded : session.lastWrittenContent = some session.currentContent
  loop : session.loopFailure = false
  outcomes : ∀ rejected ∈ session.persistOutcomes, rejected = false

/-- A clean session whose file holds its text is steady. -/
theorem Saved.steady {session : Session R} {disk : Disk} (saved : session.Saved disk)
    (clean : Site.Clean ⟨session, disk⟩) : session.Steady disk := by
  obtain ⟨own, persist, _, _, recovered, error⟩ := clean
  have agrees := own.persist
  rw [PersistAgrees, persist] at agrees
  obtain ⟨⟨held, holds, hash⟩, clear⟩ := agrees
  obtain rfl : session.currentContent = held := Option.some.inj (saved.file.symm.trans holds)
  refine ⟨own.opened, own.live, ?_, own.check, saved.loop, saved.outcomes, recovered, error⟩
  rw [Materializes, persist]
  exact ⟨⟨saved.file, saved.recorded, hash⟩, clear⟩

/-- The text of the last materialization: the content written and about to be
recorded, or the one recorded. -/
def materialized (session : Session R) : Option JsString :=
  match session.persist with
  | .writeSnapshot content _ _ | .recordHash content _ => some content
  | _ => session.lastWrittenContent

/-- The file of a steady session holds the text last materialized, which is the
current one while the persist loop rests. -/
theorem Steady.materialized {session : Session R} {disk : Disk} (steady : session.Steady disk) :
    ∃ content, disk.files session.filePath = some content ∧
      session.materialized = some content ∧
      (session.persist = .idle → content = session.currentContent) := by
  have persist := steady.persist
  unfold Materializes at persist
  unfold Session.materialized
  cases task : session.persist with
  | idle =>
      simp only [task] at persist
      exact ⟨_, persist.1.file, persist.1.recorded, fun _ => rfl⟩
  | settle =>
      simp only [task] at persist
      exact ⟨_, persist.1.file, persist.1.recorded, fun _ => rfl⟩
  | writeSnapshot content attribution snapshot =>
      simp only [task] at persist
      exact ⟨content, persist.1, rfl, nofun⟩
  | recordHash content attribution =>
      simp only [task] at persist
      exact ⟨content, persist.1, rfl, nofun⟩
  | reconcileSnapshot snapshot event => simp [task] at persist
  | awaitTransition | loopTest | readMarkdown | compareDisk | writeMarkdown =>
      simp only [task] at persist
      obtain ⟨held, written, _⟩ := persist
      exact ⟨held, written.file, written.recorded, nofun⟩

/-- Entering the loop body carries the current text, or waits. -/
theorem steady_startMaterialize {session : Session R} {disk : Disk} {held : JsString}
    (opened : session.opened = true) (live : session.deleted = false)
    (written : session.Written disk held) (clear : session.pendingWriteHash = none)
    (check : session.CheckAgrees) (faultless : session.Faultless) :
    session.startMaterialize.Steady disk ∧ session.startMaterialize.watching = session.watching := by
  obtain ⟨file, recorded, hash⟩ := written
  obtain ⟨loop, outcomes, recovered, error⟩ := faultless
  unfold startMaterialize
  split
  · exact ⟨⟨opened, live, ⟨held, ⟨file, recorded, hash⟩, clear⟩, check,
      loop, outcomes, recovered, error⟩, rfl⟩
  · rw [captureContent, if_neg (by simp [live])]
    exact ⟨⟨opened, live, ⟨held, ⟨file, recorded, hash⟩, .inr rfl, clear, rfl⟩, check,
      loop, outcomes, recovered, error⟩, rfl⟩

/-- A change of the document while the loop has not ended leaves the loop with a
request for the new text. -/
theorem Steady.handleDocumentUpdate {session : Session R} {disk : Disk}
    (steady : session.Steady disk) (running : session.persist ≠ .settle) (doc : R.Doc)
    (attribution : Option R.Attribution) :
    (({ session with doc := doc } : Session R).handleDocumentUpdate attribution).Steady disk ∧
      (({ session with doc := doc } : Session R).handleDocumentUpdate attribution).watching =
        session.watching := by
  obtain ⟨opened, live, persist, check, loop, outcomes, recovered, error⟩ := steady
  rw [Session.handleDocumentUpdate, if_neg (by simp [live]), Session.requestPersist]
  split
  · rename_i idle
    rw [Materializes, PersistTask.isIdle_iff.mp idle] at persist
    obtain ⟨⟨file, recorded, hash⟩, clear⟩ := persist
    exact steady_startMaterialize opened live ⟨file, recorded, hash⟩ clear check
      ⟨rfl, outcomes, recovered, error⟩
  · rename_i busy
    refine ⟨⟨opened, live, ?_, check, loop, outcomes, recovered, error⟩, rfl⟩
    unfold Materializes at *
    dsimp only
    split at persist
    case h_1 idle => exact absurd (PersistTask.isIdle_iff.mpr idle) busy
    case h_2 settling => exact absurd settling running
    all_goals first
      | exact persist.elim
      | (obtain ⟨held, ⟨file, recorded, hash⟩, _, rest⟩ := persist
         exact ⟨held, ⟨file, recorded, hash⟩, .inl rfl, rest⟩)
      | (obtain ⟨held, ⟨file, recorded, hash⟩, clear⟩ := persist
         exact ⟨held, ⟨file, recorded, hash⟩, clear⟩)
      | exact ⟨persist.1, .inl rfl, persist.2.2⟩

/-- A transaction that does not change the text keeps the file in step. -/
theorem Steady.withDoc {session : Session R} {disk : Disk} (steady : session.Steady disk)
    {doc : R.Doc} (same : R.text doc = session.currentContent) :
    ({ session with doc := doc } : Session R).Steady disk := by
  obtain ⟨opened, live, persist, check, loop, outcomes, recovered, error⟩ := steady
  have written : ∀ held, session.Written disk held →
      ({ session with doc := doc } : Session R).Written disk held :=
    fun held file => ⟨file.file, file.recorded, file.hash⟩
  have carries : ∀ content, session.Carries content →
      ({ session with doc := doc } : Session R).Carries content :=
    fun content carried => carried.imp_right fun current => current.trans same.symm
  refine ⟨opened, live, ?_, check, loop, outcomes, recovered, error⟩
  unfold Materializes at *
  dsimp only
  split at persist
  case h_1 | h_2 =>
    obtain ⟨⟨file, recorded, hash⟩, clear⟩ := persist
    rw [currentContent] at same
    refine ⟨⟨?_, ?_, ?_⟩, clear⟩
    · rw [currentContent, same]
      exact file
    · rw [currentContent, same]
      exact recorded
    · rw [currentContent, same]
      exact hash
  all_goals first
    | exact persist.elim
    | (obtain ⟨held, file, carried, rest⟩ := persist
       exact ⟨held, written held file, carries _ carried, rest⟩)
    | (obtain ⟨held, file, clear⟩ := persist
       exact ⟨held, written held file, clear⟩)
    | exact ⟨persist.1, carries _ persist.2.1, persist.2.2⟩

/-- A client's update keeps the file in step unless it comes between the end of
the loop and the reaction to it. -/
theorem Steady.applyUpdate {session : Session R} {disk : Disk} (steady : session.Steady disk)
    (running : session.persist ≠ .settle) (update : R.Update)
    (attribution : Option R.Attribution) :
    (session.applyUpdate update attribution).Steady disk ∧
      (session.applyUpdate update attribution).watching = session.watching := by
  unfold Session.applyUpdate
  split
  · exact steady.handleDocumentUpdate running _ attribution
  · rename_i silent
    have same := R.text_silent session.doc update (by simpa using silent)
    exact ⟨steady.withDoc same, rfl⟩

theorem Steady.applyContent {session : Session R} {disk : Disk} (steady : session.Steady disk)
    (running : session.persist ≠ .settle) (content : JsString)
    (attribution : Option R.Attribution) :
    (session.applyContent content attribution).Steady disk ∧
      (session.applyContent content attribution).watching = session.watching := by
  unfold Session.applyContent
  split
  · exact ⟨steady, rfl⟩
  · exact steady.handleDocumentUpdate running _ attribution

theorem doc_applyContent (session : Session R) (content : JsString)
    (attribution : Option R.Attribution) :
    (session.applyContent content attribution).doc =
      if R.text session.doc = content then session.doc else R.applyDelta session.doc content := by
  unfold Session.applyContent currentContent
  split
  · rfl
  · exact (handleDocumentUpdate_fields _ attribution).1

theorem recordHash_of_faultless {session : Session R} {content : JsString}
    (attribution : Option R.Attribution) (recovered : session.persistFailed = false)
    (pending : session.pendingWriteHash = some (R.hashContent content)) :
    session.recordHash content attribution =
      { session with
        lastWrittenHash := some (R.hashContent content)
        lastWrittenContent := some content
        nonEmptyMaterializedContent := !content.isEmpty
        pendingWriteHash := none
        persist := .loopTest
        events := session.events ++
          [{ session.createEvent .contentPersisted with
              persistedContent := some content
              attribution := attribution }] } := by
  rw [recordHash_of_pending attribution pending]
  have same : (session.recordContent content).markPersistRecovered =
      session.recordContent content := by
    rw [markPersistRecovered, recordContent, if_neg (by simp [recovered])]
  rw [same]
  rfl

/-- A step of the persist loop that does not fail keeps the file in step, writes
only the session's own file and changes neither the document nor the watcher. -/
theorem Steady.persistStep {session next : Session R} {disk nextDisk : Disk}
    (steady : session.Steady disk) (order : ¬ session.Overtakes .ok)
    (stepped : session.persistStep disk .ok = some (next, nextDisk)) :
    next.Steady nextDisk ∧ next.doc = session.doc ∧ next.watching = session.watching ∧
      ∀ path, path ≠ session.filePath → nextDisk.files path = disk.files path := by
  obtain ⟨opened, live, persist, check, loop, outcomes, recovered, error⟩ := steady
  unfold Materializes at persist
  unfold Session.persistStep at stepped
  cases task : session.persist with
  | idle => simp [task] at stepped
  | reconcileSnapshot snapshot event => simp [task] at persist
  | awaitTransition =>
      simp only [task] at persist stepped
      obtain ⟨held, ⟨file, recorded, hash⟩, clear⟩ := persist
      split at stepped
      · cases stepped
      · cases stepped
        rw [captureContent, if_neg (by simp [live])]
        exact ⟨⟨opened, live, ⟨held, ⟨file, recorded, hash⟩, .inr rfl, clear, rfl⟩, check,
          loop, outcomes, recovered, error⟩, rfl, rfl, fun _ _ => rfl⟩
  | readMarkdown path content attribution =>
      simp only [task] at persist stepped
      obtain ⟨held, ⟨file, recorded, hash⟩, carried, clear, rfl⟩ := persist
      cases stepped
      exact ⟨⟨opened, live, ⟨held, ⟨file, recorded, hash⟩, carried, clear, file⟩, check,
        loop, outcomes, recovered, error⟩, rfl, rfl, fun _ _ => rfl⟩
  | compareDisk content attribution diskContent =>
      simp only [task] at persist stepped
      obtain ⟨held, ⟨file, recorded, hash⟩, carried, clear, rfl⟩ := persist
      cases stepped
      rw [← file, compareDisk_of_recorded content attribution hash file]
      refine ⟨⟨opened, live, ⟨held, ⟨file, recorded, hash⟩, carried, rfl, rfl⟩, ?_,
        loop, outcomes, recovered, error⟩, rfl, rfl, fun _ _ => rfl⟩
      exact check.of_pending_none clear rfl rfl rfl
  | writeMarkdown path content attribution =>
      simp only [task] at persist stepped
      obtain ⟨held, ⟨file, recorded, hash⟩, carried, pending, rfl⟩ := persist
      cases stepped
      refine ⟨⟨opened, live, ⟨disk.write_files_self _ _, carried, pending⟩, check,
        loop, outcomes, recovered, error⟩, rfl, rfl, ?_⟩
      intro path different
      exact disk.write_files_of_ne content different
  | writeSnapshot content attribution snapshot =>
      simp only [task] at persist stepped
      obtain ⟨file, carried, pending⟩ := persist
      cases stepped
      refine ⟨⟨opened, live, ⟨?_, carried, pending⟩, check, loop, outcomes, recovered, error⟩,
        rfl, rfl, fun path _ => by rw [Disk.writeSnapshot_files]⟩
      rw [Disk.writeSnapshot_files]
      exact file
  | recordHash content attribution =>
      simp only [task] at persist stepped
      obtain ⟨file, carried, pending⟩ := persist
      cases stepped
      rw [recordHash_of_faultless attribution recovered pending]
      refine ⟨⟨opened, live, ⟨content, ⟨file, rfl, rfl⟩, carried, rfl⟩, ?_,
        loop, outcomes, recovered, error⟩, rfl, rfl, fun _ _ => rfl⟩
      unfold CheckAgrees at check ⊢
      dsimp only
      cases read : session.check with
      | idle => trivial
      | readMarkdown path => simpa only [read] using check
      | compareDisk diskContent =>
          simp only [read] at check ⊢
          obtain ⟨held, rfl, _⟩ := check
          refine ⟨held, rfl, .inl ?_⟩
          simpa [Overtakes, task, read, eq_comm] using order
      | reconcileSnapshot snapshot event => simp [read] at check
  | loopTest =>
      simp only [task] at persist stepped
      obtain ⟨held, written, carried, clear⟩ := persist
      cases stepped
      unfold Session.loopTest
      split
      · obtain ⟨kept, watching⟩ := steady_startMaterialize opened live written clear check
          ⟨loop, outcomes, recovered, error⟩
        exact ⟨kept, doc_startMaterialize session, watching, fun _ _ => rfl⟩
      · rename_i served
        obtain rfl : held = session.currentContent := carried.resolve_left served
        obtain ⟨file, recorded, hash⟩ := written
        exact ⟨⟨opened, live, ⟨⟨file, recorded, hash⟩, clear⟩, check,
          loop, outcomes, recovered, error⟩, rfl, rfl, fun _ _ => rfl⟩
  | settle =>
      simp only [task] at persist stepped
      obtain ⟨⟨file, recorded, hash⟩, clear⟩ := persist
      cases stepped
      refine ⟨⟨opened, live, ⟨⟨file, recorded, hash⟩, clear⟩, check, loop, ?_, recovered, error⟩,
        rfl, rfl, fun _ _ => rfl⟩
      intro rejected member
      rcases List.mem_append.mp member with earlier | last
      · exact outcomes rejected earlier
      · rw [List.mem_singleton.mp last]
        exact loop

/-- A steady session is alone with its file as far as a check can see. -/
theorem Steady.file_expected {session : Session R} {disk : Disk} (steady : session.Steady disk) :
    ∃ content, disk.files session.filePath = some content ∧
      (session.lastWrittenHash = some (R.hashContent content) ∨
        session.pendingWriteHash = some (R.hashContent content)) := by
  have persist := steady.persist
  unfold Materializes at persist
  split at persist
  all_goals first
    | exact persist.elim
    | exact ⟨_, persist.1.file, .inl persist.1.hash⟩
    | (obtain ⟨held, written, _⟩ := persist
       exact ⟨held, written.file, .inl written.hash⟩)
    | exact ⟨_, persist.1, .inr persist.2.2⟩

/-- A check finds an expected hash. -/
theorem Steady.checkStep {session next : Session R} {disk nextDisk : Disk}
    (steady : session.Steady disk)
    (stepped : session.checkStep disk .ok = some (next, nextDisk)) :
    next.Steady nextDisk ∧ next.doc = session.doc ∧ next.watching = session.watching ∧
      nextDisk = disk := by
  obtain ⟨content, file, expected⟩ := steady.file_expected
  obtain ⟨opened, live, persist, check, loop, outcomes, recovered, error⟩ := steady
  unfold CheckAgrees at check
  unfold Session.checkStep at stepped
  cases task : session.check with
  | idle => simp [task] at stepped
  | reconcileSnapshot snapshot event => simp [task] at check
  | readMarkdown path =>
      simp only [task] at check stepped
      subst check
      cases stepped
      exact ⟨⟨opened, live, persist.congr rfl rfl rfl rfl rfl rfl rfl, ⟨content, file, expected⟩,
        loop, outcomes, recovered, error⟩, rfl, rfl, rfl⟩
  | compareDisk diskContent =>
      simp only [task] at check stepped
      obtain ⟨read, rfl, known⟩ := check
      cases stepped
      rw [compareCheck, if_pos known]
      exact ⟨⟨opened, live, persist.congr rfl rfl rfl rfl rfl rfl rfl, trivial,
        loop, outcomes, recovered, error⟩, rfl, rfl, rfl⟩

/-- A path transition is installed, the watcher is stopped and the persist loop,
if it runs, waits: the session touches no file. -/
structure Paused (session : Session R) : Prop where
  opened : session.opened = true
  live : session.deleted = false
  transition : session.pathTransition = true
  unwatched : session.watching = false
  check : session.check = .idle
  persist : session.persist = .idle ∨ session.persist = .awaitTransition
  faultless : session.Faultless

/-- A change of the document makes the loop of a paused session wait. -/
theorem Paused.handleDocumentUpdate {session : Session R} (paused : session.Paused) (doc : R.Doc)
    (attribution : Option R.Attribution) :
    (({ session with doc := doc } : Session R).handleDocumentUpdate attribution).Paused ∧
      (({ session with doc := doc } : Session R).handleDocumentUpdate attribution).persist =
        .awaitTransition := by
  obtain ⟨opened, live, transition, unwatched, check, persist, loop, outcomes, recovered, error⟩ :=
    paused
  rw [Session.handleDocumentUpdate, if_neg (by simp [live]), Session.requestPersist]
  split
  · rw [startMaterialize, if_pos (by simpa using transition)]
    exact ⟨⟨opened, live, transition, unwatched, check, .inr rfl,
      rfl, outcomes, recovered, error⟩, rfl⟩
  · rename_i busy
    have waiting := persist.resolve_left fun idle => busy (PersistTask.isIdle_iff.mpr idle)
    exact ⟨⟨opened, live, transition, unwatched, check, .inr waiting,
      loop, outcomes, recovered, error⟩, waiting⟩

end Session

variable {R : Runtime}

/-- The step changes the document. -/
def SessionLabel.transacts : SessionLabel R → Bool
  | .update _ _ | .edit _ _ => true
  | _ => false

/-- **Steady steps.** A step of the session or of a client in which no I/O fails,
which overtakes no check and does not fall between the end of the persist loop
and the reaction to it, keeps the file in step with the text. It writes at most
the session's own file, and only updates and edits change the document. -/
theorem sessionMachine_step_steady {site next : Site R} {label : SessionLabel R}
    (faultless : label.Faultless) (order : ¬ OvertakesCheck site label)
    (running : label.transacts = true → site.session.persist ≠ .settle)
    (stepped : (sessionMachine R).step site label = some next)
    (steady : site.session.Steady site.disk) :
    next.session.Steady next.disk ∧
      next.session.doc = SessionLabel.change site.session.doc label ∧
      next.session.watching = site.session.watching ∧
      ∀ path, path ≠ site.session.filePath → next.disk.files path = site.disk.files path := by
  simp only [sessionMachine] at stepped
  cases label with
  | update update attribution =>
      dsimp only at stepped
      split at stepped
      · obtain rfl := Option.some.inj stepped
        obtain ⟨kept, watching⟩ := steady.applyUpdate (running rfl) update attribution
        exact ⟨kept, Session.doc_applyUpdate _ update attribution, watching, fun _ _ => rfl⟩
      · cases stepped
  | edit content attribution =>
      dsimp only at stepped
      split at stepped
      · obtain rfl := Option.some.inj stepped
        obtain ⟨kept, watching⟩ := steady.applyContent (running rfl) content attribution
        exact ⟨kept, Session.doc_applyContent _ content attribution, watching, fun _ _ => rfl⟩
      · cases stepped
  | retry =>
      dsimp only at stepped
      rw [if_neg (by simp [steady.faultless.error])] at stepped
      cases stepped
  | persist io =>
      obtain ⟨⟨session, disk⟩, moved, rfl⟩ := Option.map_eq_some_iff.mp stepped
      cases faultless
      exact steady.persistStep order moved
  | startCheck =>
      obtain ⟨session, started, rfl⟩ := Option.map_eq_some_iff.mp stepped
      unfold Session.startCheck at started
      split at started
      · split at started
        · obtain rfl := Option.some.inj started
          obtain ⟨opened, live, persist, _, loop, outcomes, recovered, error⟩ := steady
          exact ⟨⟨opened, live, persist.congr rfl rfl rfl rfl rfl rfl rfl, rfl,
            loop, outcomes, recovered, error⟩, rfl, rfl, fun _ _ => rfl⟩
        · cases started
      · cases started
  | check io =>
      obtain ⟨⟨session, disk⟩, moved, rfl⟩ := Option.map_eq_some_iff.mp stepped
      cases faultless
      obtain ⟨kept, doc, watching, same⟩ := steady.checkStep moved
      exact ⟨kept, doc, watching, fun path _ => congrArg (Disk.files · path) same⟩
  | external content => exact faultless.elim

/-- **Paused steps.** While a session is paused only updates and edits take
place. They leave every file as it is, and the loop rests only as long as the
text is the one it has saved. -/
theorem sessionMachine_step_paused {site next : Site R} {label : SessionLabel R}
    (faultless : label.Faultless)
    (stepped : (sessionMachine R).step site label = some next) (paused : site.session.Paused) :
    next.session.Paused ∧
      next.session.doc = SessionLabel.change site.session.doc label ∧
      next.disk = site.disk ∧
      (next.session.persist = .idle → site.session.persist = .idle ∧
        next.session.currentContent = site.session.currentContent) := by
  simp only [sessionMachine] at stepped
  cases label with
  | update update attribution =>
      dsimp only at stepped
      split at stepped
      · obtain rfl := Option.some.inj stepped
        refine ⟨?_, Session.doc_applyUpdate _ update attribution, rfl, ?_⟩
        · unfold Session.applyUpdate
          split
          · exact (paused.handleDocumentUpdate _ attribution).1
          · obtain ⟨opened, live, transition, unwatched, check, persist, safe⟩ := paused
            obtain ⟨loop, outcomes, recovered, error⟩ := safe
            exact ⟨opened, live, transition, unwatched, check, persist,
              loop, outcomes, recovered, error⟩
        · intro idle
          unfold Session.applyUpdate at idle ⊢
          split at idle
          · rw [(paused.handleDocumentUpdate _ attribution).2] at idle
            cases idle
          · rename_i silent
            rw [if_neg silent]
            exact ⟨idle, R.text_silent site.session.doc update (by simpa using silent)⟩
      · cases stepped
  | edit content attribution =>
      dsimp only at stepped
      split at stepped
      · obtain rfl := Option.some.inj stepped
        refine ⟨?_, Session.doc_applyContent _ content attribution, rfl, ?_⟩
        · unfold Session.applyContent
          split
          · exact paused
          · exact (paused.handleDocumentUpdate _ attribution).1
        · intro idle
          unfold Session.applyContent at idle ⊢
          split at idle
          · rename_i same
            rw [if_pos same]
            exact ⟨idle, rfl⟩
          · rw [(paused.handleDocumentUpdate _ attribution).2] at idle
            cases idle
      · cases stepped
  | retry =>
      dsimp only at stepped
      rw [if_neg (by simp [paused.faultless.error])] at stepped
      cases stepped
  | persist io =>
      obtain ⟨⟨session, disk⟩, moved, rfl⟩ := Option.map_eq_some_iff.mp stepped
      unfold Session.persistStep at moved
      cases faultless
      rcases paused.persist with idle | waiting
      · simp [idle] at moved
      · simp [waiting, paused.transition] at moved
  | startCheck =>
      obtain ⟨session, started, rfl⟩ := Option.map_eq_some_iff.mp stepped
      simp [Session.startCheck, paused.check, paused.unwatched] at started
  | check io =>
      obtain ⟨⟨session, disk⟩, moved, rfl⟩ := Option.map_eq_some_iff.mp stepped
      cases faultless
      simp [Session.checkStep, paused.check] at moved
  | external content => exact faultless.elim

end Kb1Daemon
