import Kb1Daemon.Session.Calls

/-! # What the persist loop still has to write

An edit of the document is on its way to the file while the running persist loop
carries a content the edit is in, or has a request to carry a newer one
(`Session.Pending`). Such an edit reaches the file, or the loop ends as failed
(`Session.pending_persistStep`). After a failed loop the edit is in every content
a later loop carries (`Session.Later`), so that no later loop gets past its
markdown write without it (`Session.later_persistStep`).
-/

namespace Kb1Daemon

/-- The loop is at the read of a materialization that has just captured the text. -/
def PersistTask.isReading {R : Runtime} : PersistTask R → Bool
  | .readMarkdown _ _ _ => true
  | _ => false

namespace Session

variable {R : Runtime} {covers : JsString → Prop}

/-- A materialization captures the text between the two sessions. -/
def captures (session next : Session R) : Bool :=
  next.persist.isReading && !session.persist.isReading

/-- The fields by which the persist loop is scheduled. -/
structure Schedule (R : Runtime) where
  filePath : JsString
  persist : PersistTask R
  persistRequested : Bool
  loopFailure : Bool
  persistOutcomes : List Bool

/-- The schedule of a session. -/
def schedule (session : Session R) : Schedule R where
  filePath := session.filePath
  persist := session.persist
  persistRequested := session.persistRequested
  loopFailure := session.loopFailure
  persistOutcomes := session.persistOutcomes

/-- The running loop will write a content that is covered, or has failed. -/
def Pending (session : Session R) (covers : JsString → Prop) : Prop :=
  session.loopFailure = true ∨
    match session.persist with
    | .idle | .settle => False
    | .awaitTransition => True
    | .readMarkdown path content _ | .writeMarkdown path content _ =>
        session.persistRequested = true ∨
          path = session.filePath ∧ covers content ∧ content = session.currentContent
    | .compareDisk content _ diskContent =>
        session.persistRequested = true ∨
          covers content ∧ content = session.currentContent ∧ diskContent ≠ some content
    | .writeSnapshot _ _ _ | .recordHash _ _ | .reconcileSnapshot _ _ | .loopTest =>
        session.persistRequested = true

/-- The content the loop carries, if any, is covered and not written yet. -/
def Later (session : Session R) (covers : JsString → Prop) : Prop :=
  match session.persist with
  | .readMarkdown _ content _ | .compareDisk content _ _ => covers content
  | .writeMarkdown path content _ => path = session.filePath ∧ covers content
  | .writeSnapshot _ _ _ | .recordHash _ _ => False
  | .idle | .awaitTransition | .reconcileSnapshot _ _ | .loopTest | .settle => True

theorem Pending.congr {session next : Session R} (pending : session.Pending covers)
    (same : next.schedule = session.schedule)
    (text : next.currentContent = session.currentContent) : next.Pending covers := by
  simp only [schedule, Schedule.mk.injEq] at same
  obtain ⟨path, persist, requested, failure, _⟩ := same
  unfold Pending at *
  rw [path, persist, requested, failure, text]
  exact pending

theorem Later.congr {session next : Session R} (later : session.Later covers)
    (same : next.schedule = session.schedule) : next.Later covers := by
  simp only [schedule, Schedule.mk.injEq] at same
  obtain ⟨path, persist, _, _, _⟩ := same
  unfold Later at *
  rw [path, persist]
  exact later

theorem Pending.mono {session : Session R} {wider : JsString → Prop}
    (pending : session.Pending covers) (widen : ∀ content, covers content → wider content) :
    session.Pending wider := by
  rcases pending with failed | pending
  · exact .inl failed
  · right
    split at pending
    all_goals first
      | exact pending
      | exact pending.imp_right fun carried => ⟨carried.1, widen _ carried.2.1, carried.2.2⟩
      | exact pending.imp_right fun carried => ⟨widen _ carried.1, carried.2⟩

/-- A later loop carries more contents too. -/
theorem Later.mono {session : Session R} {wider : JsString → Prop} (later : session.Later covers)
    (widen : ∀ content, covers content → wider content) : session.Later wider := by
  unfold Later at *
  split at later
  all_goals first
    | exact later
    | exact widen _ later
    | exact ⟨later.1, widen _ later.2⟩

/-- Entering the loop body captures the text, or waits for the path
transition. -/
theorem startMaterialize_cases {session : Session R} (live : session.deleted = false) :
    session.startMaterialize =
        { session with persistRequested := false, persist := .awaitTransition } ∨
      session.startMaterialize =
        { session with
          persistRequested := false
          persist := .readMarkdown session.filePath session.currentContent
            session.pendingPersistAttribution
          pendingPersistAttribution := none } := by
  unfold startMaterialize captureContent
  split
  · exact .inl rfl
  · right
    rw [if_neg (by simp [live])]
    rfl

theorem pending_startMaterialize {session : Session R} (live : session.deleted = false)
    (current : covers session.currentContent) :
    session.startMaterialize.Pending covers ∧ session.startMaterialize.Later covers ∧
      session.startMaterialize.persist ≠ .idle ∧
      session.startMaterialize.persistOutcomes = session.persistOutcomes := by
  rcases startMaterialize_cases live with same | same
  · rw [same]
    exact ⟨.inr trivial, trivial, by simp, rfl⟩
  · rw [same]
    exact ⟨.inr (.inr ⟨rfl, current, rfl⟩), current, by simp, rfl⟩

/-- A request made while the loop runs is met by it. -/
theorem pending_requestPersist {session : Session R} (live : session.deleted = false)
    (current : covers session.currentContent)
    (served : session.persist = .settle → session.loopFailure = true) :
    session.requestPersist.Pending covers ∧ session.requestPersist.persist ≠ .idle ∧
      session.requestPersist.persistOutcomes = session.persistOutcomes := by
  unfold requestPersist
  split
  · obtain ⟨pending, _, running, outcomes⟩ := @pending_startMaterialize R covers
      { session with persistRequested := true, loopFailure := false } live current
    exact ⟨pending, running, outcomes⟩
  · rename_i busy
    refine ⟨?_, ?_, rfl⟩
    · by_cases settling : session.persist = .settle
      · exact .inl (served settling)
      · right
        dsimp only
        split
        all_goals simp_all [PersistTask.isIdle]
    · intro idle
      exact busy (PersistTask.isIdle_iff.mpr idle)

theorem later_requestPersist {session : Session R} (later : session.Later covers)
    (live : session.deleted = false) (current : covers session.currentContent) :
    session.requestPersist.Later covers := by
  unfold requestPersist
  split
  · obtain ⟨_, captured, _, _⟩ := @pending_startMaterialize R covers
      { session with persistRequested := true, loopFailure := false } live current
    exact captured
  · exact later

theorem reconcileExternalContent_same (session : Session R) :
    session.reconcileExternalContent (some session.currentContent) =
      (session.recordContent session.currentContent, some none) := by
  simp only [reconcileExternalContent, ↓reduceIte]

theorem reconcileExternalContent_other {session : Session R} {content : JsString}
    (different : session.currentContent ≠ content) :
    ∃ event, session.reconcileExternalContent (some content) =
      ({ session with doc := R.applyDelta session.doc content }.recordContent content,
        some (some event)) := by
  simp only [reconcileExternalContent, different, ↓reduceIte]
  exact ⟨_, rfl⟩

/-- The comparison of the loop announces its write, or reconciles: it marks the
session deleted, replaces the text, or finds the text on disk. -/
theorem compareDisk_cases (session : Session R) (content : JsString)
    (attribution : Option R.Attribution) (diskContent : Option JsString) :
    session.compareDisk content attribution diskContent =
        { session with
          pendingWriteHash := some (R.hashContent content)
          persist := .writeMarkdown session.filePath content attribution } ∨
      (session.compareDisk content attribution diskContent).deleted = true ∨
      (session.compareDisk content attribution diskContent).currentContent ≠
        session.currentContent ∨
      diskContent = some session.currentContent ∧ ∃ snapshot event,
        (session.compareDisk content attribution diskContent).schedule =
          { session.schedule with persist := .reconcileSnapshot snapshot event } := by
  unfold compareDisk
  split
  · split
    · right
      cases diskContent with
      | none =>
          left
          simp only [reconcileExternalContent, markDeleted]
          split
          · assumption
          · rfl
      | some held =>
          right
          rename_i expected _ _
          by_cases same : session.currentContent = held
          · right
            subst same
            have reconciled := reconcileExternalContent_same
              (session.warn expected ((some session.currentContent).map R.hashContent))
            change reconcileExternalContent _ (some session.currentContent) = _ at reconciled
            rw [reconciled]
            exact ⟨rfl, _, _, rfl⟩
          · left
            obtain ⟨event, reconciled⟩ := @reconcileExternalContent_other R
              (session.warn expected ((some held).map R.hashContent)) held same
            rw [reconciled]
            intro unchanged
            apply same
            rw [← unchanged]
            exact R.text_applyDelta _ held
    · exact .inl rfl
  · exact .inl rfl

/-- The loop goes on after the step, and what is pending stays so. -/
def StaysPending (covers : JsString → Prop) (session next : Session R) : Prop :=
  next.persistOutcomes = session.persistOutcomes ∧ next.persist ≠ .idle ∧ next.Pending covers

section StaysPending

variable {session : Session R} {content : JsString} {attribution : Option R.Attribution}

/-- A failure of the loop is remembered. -/
theorem staysPending_failMaterialize : session.StaysPending covers session.failMaterialize :=
  ⟨rfl, by simp [failMaterialize, markPersistFailed, emitEvent], .inl rfl⟩

/-- So is a failure of a write that is no longer announced. -/
theorem staysPending_clearPendingWrite (content : JsString) :
    session.StaysPending covers (session.clearPendingWrite content).failMaterialize := by
  have outcomes : (session.clearPendingWrite content).persistOutcomes = session.persistOutcomes := by
    unfold clearPendingWrite
    split <;> rfl
  obtain ⟨same, running, pending⟩ :=
    @staysPending_failMaterialize R covers (session.clearPendingWrite content)
  exact ⟨same.trans outcomes, running, pending⟩

/-- The text that is captured is the one that is covered. -/
theorem staysPending_captureContent (live : session.deleted = false)
    (current : covers session.currentContent) :
    session.StaysPending covers session.captureContent := by
  rw [captureContent, if_neg (by simp [live])]
  exact ⟨rfl, by simp, .inr (.inr ⟨rfl, current, rfl⟩)⟩

/-- A read of a file that has no covered content. -/
theorem staysPending_readMarkdown {path : JsString} {disk : Disk}
    (task : session.persist = .readMarkdown path content attribution)
    (pending : session.Pending covers)
    (unsaved : ∀ content, covers content → disk.files session.filePath ≠ some content) :
    session.StaysPending covers
      { session with persist := .compareDisk content attribution (disk.files path) } := by
  simp only [Pending, task] at pending
  refine ⟨rfl, by simp, ?_⟩
  rcases pending with failure | requested | ⟨rfl, covered, carried⟩
  · exact .inl failure
  · exact .inr (.inl requested)
  · exact .inr (.inr ⟨covered, carried, unsaved content covered⟩)

/-- A comparison that keeps the text announces the write, or finds the text on disk. -/
theorem staysPending_compareDisk {diskContent : Option JsString}
    (task : session.persist = .compareDisk content attribution diskContent)
    (pending : session.Pending covers)
    (kept : (session.compareDisk content attribution diskContent).deleted = false)
    (text : (session.compareDisk content attribution diskContent).currentContent =
      session.currentContent) :
    session.StaysPending covers (session.compareDisk content attribution diskContent) := by
  simp only [Pending, task] at pending
  rcases session.compareDisk_cases content attribution diskContent with
    written | gone | replaced | ⟨found, snapshot, event, schedule⟩
  · rw [written]
    refine ⟨rfl, by simp, ?_⟩
    rcases pending with failure | requested | ⟨covered, carried, _⟩
    · exact .inl failure
    · exact .inr (.inl requested)
    · exact .inr (.inr ⟨rfl, covered, carried⟩)
  · simp [kept] at gone
  · exact absurd text replaced
  · simp only [Session.schedule, Schedule.mk.injEq] at schedule
    obtain ⟨_, task', requested', failure', outcomes'⟩ := schedule
    refine ⟨outcomes', by simp [task'], ?_⟩
    unfold Pending
    rw [task', requested', failure']
    rcases pending with failure | requested | ⟨_, carried, other⟩
    · exact .inl failure
    · exact .inr requested
    · rw [carried] at other
      exact absurd found other

/-- After the write only a request is pending. -/
theorem staysPending_recordHash (task : session.persist = .recordHash content attribution)
    (pending : session.Pending covers) :
    session.StaysPending covers (session.recordHash content attribution) := by
  simp only [Pending, task] at pending
  have schedule : (session.recordHash content attribution).schedule =
      { session.schedule with persist := .loopTest } := by
    unfold recordHash clearPendingWrite markPersistRecovered
    dsimp only
    split <;> split <;> rfl
  simp only [Session.schedule, Schedule.mk.injEq] at schedule
  obtain ⟨_, task', requested', failure', outcomes'⟩ := schedule
  refine ⟨outcomes', by simp [task'], ?_⟩
  unfold Pending
  rw [task', requested', failure']
  exact pending

/-- The test of the loop starts another materialization for a request. -/
theorem staysPending_loopTest (task : session.persist = .loopTest)
    (pending : session.Pending covers) (live : session.deleted = false)
    (current : covers session.currentContent) :
    session.StaysPending covers session.loopTest := by
  simp only [Pending, task] at pending
  unfold loopTest
  split
  · obtain ⟨next, _, running, outcomes⟩ := pending_startMaterialize live current
    exact ⟨outcomes, running, next⟩
  · rename_i quiet
    rcases pending with failure | requested
    · exact ⟨rfl, by simp, .inl failure⟩
    · exact absurd requested quiet

end StaysPending

/-- What becomes of a pending content in one step of the loop that does not
reconcile: it is written, it stays pending, or the loop ends as failed. -/
theorem pending_persistStep {session next : Session R} {disk nextDisk : Disk} {io : Io}
    (pending : session.Pending covers) (current : covers session.currentContent)
    (live : session.deleted = false) (kept : next.deleted = false)
    (text : next.currentContent = session.currentContent)
    (unsaved : ∀ content, covers content → disk.files session.filePath ≠ some content)
    (stepped : session.persistStep disk io = some (next, nextDisk)) :
    (∃ content, covers content ∧ nextDisk.files session.filePath = some content) ∨
      (next.persistOutcomes = session.persistOutcomes ∧ next.persist ≠ .idle ∧
        next.Pending covers) ∨
      next.persistOutcomes = session.persistOutcomes ++ [true] ∧ next.persist = .idle := by
  unfold Session.persistStep at stepped
  cases task : session.persist with
  | idle => simp [task] at stepped
  | awaitTransition =>
      simp only [task] at stepped
      cases io with
      | ok =>
          dsimp only at stepped
          split at stepped
          · cases stepped
          · cases stepped
            exact .inr (.inl (staysPending_captureContent live current))
      | fail => simp at stepped
      | failLate => simp at stepped
  | readMarkdown path content attribution =>
      simp only [task] at stepped
      cases io with
      | ok =>
          cases stepped
          exact .inr (.inl (staysPending_readMarkdown task pending unsaved))
      | fail =>
          cases stepped
          exact .inr (.inl staysPending_failMaterialize)
      | failLate => simp at stepped
  | compareDisk content attribution diskContent =>
      simp only [task] at stepped
      cases io with
      | ok =>
          cases stepped
          exact .inr (.inl (staysPending_compareDisk task pending kept text))
      | fail => simp at stepped
      | failLate => simp at stepped
  | writeMarkdown path content attribution =>
      simp only [Pending, task] at pending
      simp only [task] at stepped
      cases io with
      | ok =>
          cases stepped
          rcases pending with failure | requested | ⟨rfl, covered, _⟩
          · exact .inr (.inl ⟨rfl, by simp, .inl failure⟩)
          · exact .inr (.inl ⟨rfl, by simp, .inr requested⟩)
          · exact .inl ⟨content, covered, by simp⟩
      | fail | failLate =>
          cases stepped
          exact .inr (.inl (staysPending_clearPendingWrite content))
  | writeSnapshot content attribution snapshot =>
      simp only [Pending, task] at pending
      simp only [task] at stepped
      cases io with
      | ok =>
          cases stepped
          exact .inr (.inl ⟨rfl, by simp, pending⟩)
      | fail | failLate =>
          dsimp only at stepped
          split at stepped
          · cases stepped
            exact .inr (.inl (staysPending_clearPendingWrite content))
          · cases stepped
  | recordHash content attribution =>
      simp only [task] at stepped
      cases io with
      | ok =>
          cases stepped
          exact .inr (.inl (staysPending_recordHash task pending))
      | fail => simp at stepped
      | failLate => simp at stepped
  | reconcileSnapshot snapshot event =>
      simp only [Pending, task] at pending
      simp only [task] at stepped
      cases io with
      | ok =>
          cases stepped
          refine .inr (.inl ?_)
          unfold emitReconcile
          split <;> exact ⟨rfl, by simp, pending⟩
      | fail | failLate =>
          dsimp only at stepped
          split at stepped
          · cases stepped
            exact .inr (.inl staysPending_failMaterialize)
          · cases stepped
  | loopTest =>
      simp only [task] at stepped
      cases io with
      | ok =>
          cases stepped
          exact .inr (.inl (staysPending_loopTest task pending live current))
      | fail => simp at stepped
      | failLate => simp at stepped
  | settle =>
      simp only [Pending, task, or_false] at pending
      simp only [task] at stepped
      cases io with
      | ok =>
          cases stepped
          refine .inr (.inr ⟨?_, rfl⟩)
          simp [settle, pending]
      | fail => simp at stepped
      | failLate => simp at stepped

/-- After a failed loop no later one gets past its markdown write without
writing a covered content. -/
theorem later_persistStep {session next : Session R} {disk nextDisk : Disk} {io : Io}
    (later : session.Later covers) (current : covers session.currentContent)
    (live : session.deleted = false) (kept : next.deleted = false)
    (text : next.currentContent = session.currentContent)
    (stepped : session.persistStep disk io = some (next, nextDisk)) :
    (∃ content, covers content ∧ nextDisk.files session.filePath = some content) ∨
      next.Later covers := by
  unfold Session.persistStep at stepped
  cases task : session.persist with
  | idle => simp [task] at stepped
  | awaitTransition =>
      simp only [task] at stepped
      cases io with
      | ok =>
          dsimp only at stepped
          split at stepped
          · cases stepped
          · cases stepped
            right
            rw [captureContent, if_neg (by simp [live])]
            exact current
      | fail => simp at stepped
      | failLate => simp at stepped
  | readMarkdown path content attribution =>
      simp only [Later, task] at later
      simp only [task] at stepped
      cases io with
      | ok =>
          cases stepped
          exact .inr later
      | fail =>
          cases stepped
          exact .inr trivial
      | failLate => simp at stepped
  | compareDisk content attribution diskContent =>
      simp only [Later, task] at later
      simp only [task] at stepped
      cases io with
      | ok =>
          cases stepped
          right
          rcases session.compareDisk_cases content attribution diskContent with
            written | gone | replaced | ⟨_, snapshot, event, schedule⟩
          · rw [written]
            exact ⟨rfl, later⟩
          · simp [kept] at gone
          · exact absurd text replaced
          · have task' := congrArg Schedule.persist schedule
            unfold Later
            change (session.compareDisk content attribution diskContent).persist = _ at task'
            rw [task']
            trivial
      | fail => simp at stepped
      | failLate => simp at stepped
  | writeMarkdown path content attribution =>
      simp only [Later, task] at later
      simp only [task] at stepped
      obtain ⟨rfl, covered⟩ := later
      cases io with
      | ok =>
          cases stepped
          exact .inl ⟨content, covered, by simp⟩
      | fail =>
          cases stepped
          exact .inr trivial
      | failLate =>
          cases stepped
          exact .inl ⟨content, covered, by simp⟩
  | writeSnapshot content attribution snapshot => simp [Later, task] at later
  | recordHash content attribution => simp [Later, task] at later
  | reconcileSnapshot snapshot event =>
      simp only [task] at stepped
      cases io with
      | ok =>
          cases stepped
          exact .inr trivial
      | fail | failLate =>
          dsimp only at stepped
          split at stepped
          · cases stepped
            exact .inr trivial
          · cases stepped
  | loopTest =>
      simp only [task] at stepped
      cases io with
      | ok =>
          cases stepped
          right
          unfold loopTest
          split
          · exact (pending_startMaterialize live current).2.1
          · trivial
      | fail => simp at stepped
      | failLate => simp at stepped
  | settle =>
      simp only [task] at stepped
      cases io with
      | ok =>
          cases stepped
          exact .inr trivial
      | fail => simp at stepped
      | failLate => simp at stepped

theorem schedule_reconcileExternalContent (session : Session R) (content : Option JsString) :
    (session.reconcileExternalContent content).1.schedule = session.schedule := by
  cases content with
  | none =>
      dsimp only [reconcileExternalContent, markDeleted]
      split <;> rfl
  | some content =>
      dsimp only [reconcileExternalContent]
      split <;> rfl

/-- A check leaves the schedule of the persist loop as it is. -/
theorem schedule_checkStep {session next : Session R} {disk nextDisk : Disk} {io : Io}
    (stepped : session.checkStep disk io = some (next, nextDisk)) :
    next.schedule = session.schedule := by
  unfold checkStep at stepped
  split at stepped
  all_goals try split at stepped
  all_goals cases stepped
  all_goals first
    | rfl
    | (unfold emitReconcile; split <;> rfl)
    | skip
  rename_i diskContent _
  unfold compareCheck
  cases diskContent with
  | none => exact schedule_reconcileExternalContent session none
  | some content =>
      dsimp only
      split
      · rfl
      · have reconciled := schedule_reconcileExternalContent session (some content)
        split
        · rename_i result same
          rw [same] at reconciled
          exact reconciled
        · rename_i result event same
          rw [same] at reconciled
          exact reconciled

theorem schedule_startCheck {session next : Session R}
    (started : session.startCheck = some next) : next.schedule = session.schedule := by
  unfold startCheck at started
  split at started
  · split at started
    · cases started
      rfl
    · cases started
  · cases started

theorem promise_startMaterialize (session : Session R) :
    session.startMaterialize.persist ≠ .idle ∧
      session.startMaterialize.persistOutcomes = session.persistOutcomes := by
  unfold startMaterialize captureContent
  split
  · exact ⟨nofun, rfl⟩
  · split <;> exact ⟨nofun, rfl⟩

theorem promise_compareDisk (session : Session R) (content : JsString)
    (attribution : Option R.Attribution) (diskContent : Option JsString) :
    (session.compareDisk content attribution diskContent).persist ≠ .idle ∧
      (session.compareDisk content attribution diskContent).persistOutcomes =
        session.persistOutcomes := by
  unfold compareDisk
  split
  · rename_i expected _
    split
    · have reconciled := congrArg Schedule.persistOutcomes (schedule_reconcileExternalContent
        (session.warn expected (diskContent.map R.hashContent)) diskContent)
      split
      · rename_i result same
        rw [same] at reconciled
        exact ⟨nofun, reconciled⟩
      · rename_i result event same
        rw [same] at reconciled
        exact ⟨nofun, reconciled⟩
    · exact ⟨nofun, rfl⟩
  · exact ⟨nofun, rfl⟩

/-- The persist promise stays pending until the loop rests, and then has its
outcome. -/
theorem promise_persistStep {session next : Session R} {disk nextDisk : Disk} {io : Io}
    (stepped : session.persistStep disk io = some (next, nextDisk)) :
    next.persist ≠ .idle ∧ next.persistOutcomes = session.persistOutcomes ∨
      next.persist = .idle ∧
        next.persistOutcomes = session.persistOutcomes ++ [session.loopFailure] := by
  unfold persistStep at stepped
  split at stepped
  all_goals try split at stepped
  all_goals cases stepped
  all_goals first
    | exact .inr ⟨rfl, rfl⟩
    | left
  all_goals first
    | exact ⟨nofun, rfl⟩
    | exact promise_compareDisk session _ _ _
    | (unfold captureContent; split <;> exact ⟨nofun, rfl⟩)
    | (unfold clearPendingWrite failMaterialize markPersistFailed emitEvent
       split <;> exact ⟨nofun, rfl⟩)
    | (unfold recordHash clearPendingWrite markPersistRecovered
       dsimp only
       split <;> split <;> exact ⟨nofun, rfl⟩)
    | (unfold emitReconcile; split <;> exact ⟨nofun, rfl⟩)
    | (unfold loopTest
       split
       · exact promise_startMaterialize session
       · exact ⟨nofun, rfl⟩)

theorem outcomes_persistStep {session next : Session R} {disk nextDisk : Disk} {io : Io}
    (stepped : session.persistStep disk io = some (next, nextDisk)) :
    ∃ settled, next.persistOutcomes = session.persistOutcomes ++ settled := by
  rcases promise_persistStep stepped with ⟨_, same⟩ | ⟨_, settled⟩
  · exact ⟨[], same.trans (List.append_nil _).symm⟩
  · exact ⟨_, settled⟩

/-- The schedule and the text stay as they are, or a persist is requested of a
session that may have another document. -/
def Nudged (session next : Session R) : Prop :=
  next.schedule = session.schedule ∧ next.currentContent = session.currentContent ∨
    ∃ middle : Session R, middle.schedule = session.schedule ∧ middle.deleted = false ∧
      next = middle.requestPersist

theorem Nudged.pending {session next : Session R} (nudged : Nudged session next)
    (pending : session.Pending covers) (running : session.persist ≠ .idle)
    (current : covers next.currentContent) :
    next.Pending covers ∧ next.persist ≠ .idle ∧
      next.persistOutcomes = session.persistOutcomes := by
  rcases nudged with ⟨same, text⟩ | ⟨middle, same, live, rfl⟩
  · exact ⟨pending.congr same text, (congrArg Schedule.persist same).trans_ne running,
      congrArg Schedule.persistOutcomes same⟩
  · have settled : middle.persist = .settle → middle.loopFailure = true := by
      intro settling
      have task : session.persist = .settle := (congrArg Schedule.persist same).symm.trans settling
      have failure : middle.loopFailure = session.loopFailure :=
        congrArg Schedule.loopFailure same
      rw [failure]
      unfold Pending at pending
      rw [task] at pending
      exact pending.resolve_right id
    have text : covers middle.currentContent := by
      rw [currentContent, (requestPersist_fields middle).1] at current
      exact current
    obtain ⟨requested, busy, outcomes⟩ := pending_requestPersist live text settled
    exact ⟨requested, busy, outcomes.trans (congrArg Schedule.persistOutcomes same)⟩

theorem Nudged.later {session next : Session R} (nudged : Nudged session next)
    (later : session.Later covers) (current : covers next.currentContent) :
    next.Later covers := by
  rcases nudged with ⟨same, text⟩ | ⟨middle, same, live, rfl⟩
  · exact later.congr same
  · have text : covers middle.currentContent := by
      rw [currentContent, (requestPersist_fields middle).1] at current
      exact current
    exact later_requestPersist (later.congr same) live text

/-- A nudge settles no promise. -/
theorem Nudged.outcomes {session next : Session R} (nudged : Nudged session next) :
    next.persistOutcomes = session.persistOutcomes := by
  rcases nudged with ⟨same, text⟩ | ⟨middle, same, live, rfl⟩
  · exact congrArg Schedule.persistOutcomes same
  · refine Eq.trans ?_ (congrArg Schedule.persistOutcomes same)
    change middle.requestPersist.persistOutcomes = middle.persistOutcomes
    unfold requestPersist startMaterialize captureContent
    split
    · split
      · rfl
      · split <;> rfl
    · rfl

/-- A nudge stops no loop. -/
theorem Nudged.running {session next : Session R} (nudged : Nudged session next)
    (running : session.persist ≠ .idle) : next.persist ≠ .idle := by
  rcases nudged with ⟨same, _⟩ | ⟨middle, same, _, rfl⟩
  · exact (congrArg Schedule.persist same).trans_ne running
  · unfold requestPersist
    split
    · exact (promise_startMaterialize _).1
    · exact (congrArg Schedule.persist same).trans_ne running

theorem nudged_handleDocumentUpdate {session : Session R} (live : session.deleted = false)
    (doc : R.Doc) (attribution : Option R.Attribution) :
    Nudged session ({ session with doc := doc }.handleDocumentUpdate attribution) := by
  right
  refine ⟨{ session with doc := doc, pendingPersistAttribution := attribution }, rfl, live, ?_⟩
  rw [handleDocumentUpdate, if_neg (by simp [live])]

theorem nudged_applyUpdate {session : Session R} (live : session.deleted = false)
    (update : R.Update) (attribution : Option R.Attribution) :
    Nudged session (session.applyUpdate update attribution) := by
  unfold applyUpdate
  split
  · exact nudged_handleDocumentUpdate live _ attribution
  · rename_i silent
    exact .inl ⟨rfl, R.text_silent session.doc update (by simpa using silent)⟩

theorem nudged_applyContent {session : Session R} (live : session.deleted = false)
    (content : JsString) (attribution : Option R.Attribution) :
    Nudged session (session.applyContent content attribution) := by
  unfold applyContent
  split
  · exact .inl ⟨rfl, rfl⟩
  · exact nudged_handleDocumentUpdate live _ attribution

theorem nudged_requestPersist {session : Session R} (live : session.deleted = false) :
    Nudged session session.requestPersist := .inr ⟨session, rfl, live, rfl⟩

/-- A flush nudges the loop. -/
theorem nudged_flush {session : Session R} (live : session.deleted = false) :
    Nudged session session.flush.1 := by
  rcases session.flush_cases with same | requested
  · rw [same]
    exact .inl ⟨rfl, rfl⟩
  · rw [requested]
    exact nudged_requestPersist live

end Session

end Kb1Daemon
