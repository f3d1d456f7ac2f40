import Kb1Daemon.Manager.PathMutation
import Kb1Daemon.Session.Load
import Mathlib.Data.Nat.Basic

/-! # No coalesced save is dropped

A request for a persist made while a persist loop runs only raises a flag, which the
loop tests after each materialization. The books of a run count the updates applied
and, at each capture of the text, how many of these the captured text can hold.

The loop's last test and the clearing of its promise are different steps. An update
applied between them raises the flag of a loop that does not test it again
(`dropped_request`). The same holds for an update whose materialization waits for a
path transition that is rejected. In every other run an update that no
materialization has captured is served by a loop that will capture it, and a flush
that has resolved has seen a capture of everything applied before it was called
(`no_request_dropped`).
-/

namespace Kb1Daemon

/-- The place of a task on the way to the loop's test. -/
def PersistTask.distance {R : Runtime} : PersistTask R → Nat
  | .idle | .awaitTransition | .settle | .loopTest => 0
  | .recordHash _ _ | .reconcileSnapshot _ _ => 1
  | .writeSnapshot _ _ _ => 2
  | .writeMarkdown _ _ _ => 3
  | .compareDisk _ _ _ => 4
  | .readMarkdown _ _ _ => 5

namespace Session

variable {R : Runtime}

/-- Whatever the disk holds and however their I/O ends, the loop's own steps lead to
a capture of the text, or to the deletion of the session. A materialization that waits
for a path transition captures the text after it. -/
inductive WillMaterialize : Session R → Prop where
  | waiting {session : Session R} : session.persist = .awaitTransition → WillMaterialize session
  | step {session : Session R} : (∀ disk, (session.persistStep disk .ok).isSome = true) →
      (∀ disk io next nextDisk, session.persistStep disk io = some (next, nextDisk) →
        next.deleted = false → session.captures next = false → WillMaterialize next) →
      WillMaterialize session

/-- The loop has a request to meet, or a materialization still to capture the text. -/
def Serves (session : Session R) : Prop :=
  match session.persist with
  | .idle | .settle => False
  | .awaitTransition => True
  | _ => session.persistRequested = true

end Session

/-- A call of `flush`, with the number of updates applied before it. -/
structure FlushCall where
  task : FlushTask
  applied : Nat

/-- A session with its flushes and the books of its updates. -/
structure Coalescing (R : Runtime) where
  state : Tenancy R
  /-- How many updates have been applied. -/
  applied : Nat
  /-- How many of these had been applied when the text was last captured. -/
  captured : Nat
  flushes : List FlushCall

/-- The steps of a session and of its flushes. -/
inductive CoalesceLabel (R : Runtime) where
  | session (label : TenancyLabel R)
  /-- `flush` is called. -/
  | flush
  /-- A flush continues. -/
  | resume (index : Nat)

/-- The step applies an update that fires the document's update event. -/
def Tenancy.fires {R : Runtime} (state : Tenancy R) : TenancyLabel R → Bool
  | .session (.update update _) => R.firesUpdate state.site.session.doc update
  | .session (.edit content _) => state.site.session.currentContent ≠ content
  | _ => false

namespace Coalescing

variable {R : Runtime}

/-- Enter a step into the books. -/
def advance (books : Coalescing R) (state : Tenancy R) (fires : Bool)
    (flushes : List FlushCall) : Coalescing R :=
  let applied := if fires then books.applied + 1 else books.applied
  { state := state
    applied := applied
    captured :=
      if books.state.site.session.captures state.site.session then applied else books.captured
    flushes := flushes }

/-- The session is replaced and nothing else. -/
def withSession (state : Tenancy R) (session : Session R) : Tenancy R :=
  { state with site := { state.site with session := session } }

end Coalescing

/-- The machine of a session with its flushes and the books of its updates. -/
def coalesceMachine (R : Runtime) : Machine (Coalescing R) (CoalesceLabel R) where
  step books label :=
    match label with
    | .session label =>
        ((tenancyMachine R).step books.state label).map fun next =>
          books.advance next (books.state.fires label) books.flushes
    | .flush =>
        let flushed := books.state.site.session.flush
        some (books.advance (Coalescing.withSession books.state flushed.1) false
          (books.flushes ++ [⟨flushed.2, books.applied⟩]))
    | .resume index =>
        match books.flushes[index]? with
        | none => none
        | some call =>
            (books.state.site.session.flushStep call.task).map fun flushed =>
              books.advance (Coalescing.withSession books.state flushed.1) false
                (books.flushes.set index { call with task := flushed.2 })

/-- The step rejects the path transition. -/
def Tenancy.rejects {R : Runtime} (state : Tenancy R) : TenancyLabel R → Bool
  | .proceed io =>
      match state.task, io with
      | .settled _ false, .ok => true
      | .settled (.moveTo _ _) true, .ok => state.site.session.deleted
      | .writeMarkdown _, .fail | .writeMarkdown _, .failLate | .writeSnapshot _ _, .fail
      | .writeSnapshot _ _, .failLate | .removeState _, .fail | .deleteState, .fail => true
      | _, _ => false
  | _ => false

/-- An update is applied to a session whose finished loop is not yet cleared away, or
a path transition is rejected while the loop's only materialization waits for it. -/
def Tenancy.DropsRequest {R : Runtime} (state : Tenancy R) (label : TenancyLabel R) : Prop :=
  match state.site.session.persist with
  | .settle => state.fires label = true
  | .awaitTransition =>
      state.rejects label = true ∧ state.site.session.persistRequested = false
  | _ => False

instance Tenancy.decidableDropsRequest {R : Runtime} (state : Tenancy R)
    (label : TenancyLabel R) : Decidable (state.DropsRequest label) := by
  unfold Tenancy.DropsRequest
  split <;> infer_instance

/-- The step drops a request. -/
def Coalescing.Drops {R : Runtime} (books : Coalescing R) : CoalesceLabel R → Prop
  | .session label => books.state.DropsRequest label
  | _ => False

instance Coalescing.decidableDrops {R : Runtime} (books : Coalescing R)
    (label : CoalesceLabel R) : Decidable (books.Drops label) := by
  unfold Coalescing.Drops
  split <;> infer_instance

namespace Session

variable {R : Runtime}

theorem Serves.congr {session next : Session R} (serves : session.Serves)
    (persist : next.persist = session.persist)
    (requested : next.persistRequested = session.persistRequested) : next.Serves := by
  unfold Serves at *
  rw [persist, requested]
  exact serves

/-- Entering the loop body captures the text, or waits for the transition. -/
theorem captures_startMaterialize {session : Session R} (live : session.deleted = false)
    (before : session.persist.isReading = false) :
    session.captures session.startMaterialize = true ∨ session.startMaterialize.Serves := by
  rcases startMaterialize_cases live with same | same
  · rw [same]
    exact .inr trivial
  · left
    rw [same, captures, before]
    rfl

/-- A request is met by the loop it starts, or by a loop that is still to test it. -/
theorem captures_requestPersist {session : Session R} (live : session.deleted = false)
    (running : session.persist ≠ .settle) :
    session.captures session.requestPersist = true ∨ session.requestPersist.Serves := by
  unfold requestPersist
  split
  · rename_i idle
    have before : session.persist.isReading = false := by
      rw [PersistTask.isIdle_iff.mp idle]
      rfl
    exact @captures_startMaterialize R
      { session with persistRequested := true, loopFailure := false } live before
  · rename_i busy
    right
    unfold Serves
    dsimp only
    split
    · rename_i idle
      exact busy (PersistTask.isIdle_iff.mpr idle)
    · rename_i settling
      exact running settling
    · trivial
    · rfl

theorem deleted_markDeleted (session : Session R) : session.markDeleted.deleted = true := by
  unfold markDeleted
  split
  · assumption
  · rfl

theorem deleted_reconcileExternalContent {session : Session R} (deleted : session.deleted = true)
    (content : Option JsString) :
    (session.reconcileExternalContent content).1.deleted = true := by
  cases content with
  | none => exact deleted_markDeleted session
  | some content =>
      dsimp only [reconcileExternalContent]
      split <;> exact deleted

/-- The comparison leaves the request as it is, and the loop before its next test. -/
theorem requested_compareDisk (session : Session R) (content : JsString)
    (attribution : Option R.Attribution) (diskContent : Option JsString) :
    (session.compareDisk content attribution diskContent).persistRequested =
        session.persistRequested ∧
      (session.deleted = true →
        (session.compareDisk content attribution diskContent).deleted = true) ∧
      (session.compareDisk content attribution diskContent).persist ≠ .settle ∧
      (session.compareDisk content attribution diskContent).persist.isReading = false := by
  unfold compareDisk
  split
  · rename_i expected _
    split
    · have requested := congrArg Schedule.persistRequested (schedule_reconcileExternalContent
        (session.warn expected (diskContent.map R.hashContent)) diskContent)
      have deleted := fun gone => @deleted_reconcileExternalContent R
        (session.warn expected (diskContent.map R.hashContent)) gone diskContent
      split
      all_goals
        rename_i same
        rw [same] at requested deleted
        exact ⟨requested, deleted, nofun, rfl⟩
    · exact ⟨rfl, id, nofun, rfl⟩
  · exact ⟨rfl, id, nofun, rfl⟩

/-- A running loop with a request serves it. -/
theorem Serves.of_requested {session : Session R} (requested : session.persistRequested = true)
    (running : session.persist ≠ .idle) (unsettled : session.persist ≠ .settle) :
    session.Serves := by
  unfold Serves
  split
  · exact running ‹_›
  · exact unsettled ‹_›
  · trivial
  · exact requested

theorem fields_clearPendingWrite (session : Session R) (content : JsString) :
    (session.clearPendingWrite content).persistRequested = session.persistRequested ∧
      (session.clearPendingWrite content).deleted = session.deleted := by
  unfold clearPendingWrite
  split <;> exact ⟨rfl, rfl⟩

theorem requested_recordHash (session : Session R) (content : JsString)
    (attribution : Option R.Attribution) :
    (session.recordHash content attribution).persistRequested = session.persistRequested ∧
      (session.recordHash content attribution).deleted = session.deleted := by
  unfold recordHash clearPendingWrite markPersistRecovered
  dsimp only
  split <;> split <;> exact ⟨rfl, rfl⟩

theorem fields_emitReconcile (session : Session R) (event : Option ExternalEvent) :
    (session.emitReconcile event).persistRequested = session.persistRequested ∧
      (session.emitReconcile event).deleted = session.deleted := by
  cases event <;> exact ⟨rfl, rfl⟩

/-- A loop with a request to meet captures the text, waits for a transition to do so,
or comes nearer to its test. -/
theorem serves_persistStep {session next : Session R} {disk nextDisk : Disk} {io : Io}
    (serves : session.Serves) (live : next.deleted = false)
    (stepped : session.persistStep disk io = some (next, nextDisk)) :
    session.captures next = true ∨ next.persist = .awaitTransition ∨
      next.Serves ∧ next.persist.distance < session.persist.distance := by
  have nearer : next.persistRequested = true → next.persist ≠ .idle → next.persist ≠ .settle →
      next.persist.distance < session.persist.distance →
      session.captures next = true ∨ next.persist = .awaitTransition ∨
        next.Serves ∧ next.persist.distance < session.persist.distance :=
    fun requested running unsettled near =>
      .inr (.inr ⟨.of_requested requested running unsettled, near⟩)
  have failed : session.persistRequested = true → ∀ content,
      (session.clearPendingWrite content).failMaterialize.persistRequested = true :=
    fun requested content => (session.fields_clearPendingWrite content).1.trans requested
  unfold Serves at serves
  unfold persistStep at stepped
  split at stepped
  case h_1 => cases stepped
  case h_2 task =>
    split at stepped
    · cases stepped
    · cases stepped
      left
      unfold captureContent at live ⊢
      split
      · rename_i deleted
        rw [if_pos deleted] at live
        exact absurd (deleted.symm.trans live) (by decide)
      · rw [captures, task]
        rfl
  case h_5 content attribution diskContent task =>
    cases stepped
    rw [task] at serves
    obtain ⟨requested, _, unsettled, _⟩ :=
      session.requested_compareDisk content attribution diskContent
    refine nearer (requested.trans serves)
      (session.promise_compareDisk content attribution diskContent).1 unsettled ?_
    rw [task]
    unfold compareDisk
    split
    · split
      · split <;> simp [PersistTask.distance]
      · simp [PersistTask.distance]
    · simp [PersistTask.distance]
  case h_16 task =>
    cases stepped
    rw [task] at serves
    rw [loopTest, if_pos serves] at live ⊢
    have before : session.deleted = false := (deleted_startMaterialize session).symm.trans live
    rcases startMaterialize_cases before with same | same
    · rw [same]
      exact .inr (.inl rfl)
    · left
      rw [same, captures, task]
      rfl
  case h_17 task =>
    rw [task] at serves
    exact serves.elim
  case h_18 => cases stepped
  case h_3 task =>
    cases stepped
    rw [task] at serves
    refine nearer serves nofun nofun ?_
    rw [task]
    exact Nat.le.refl
  case h_4 task =>
    cases stepped
    rw [task] at serves
    refine nearer serves nofun nofun ?_
    rw [task]
    exact Nat.zero_lt_succ _
  case h_6 task =>
    cases stepped
    rw [task] at serves
    refine nearer serves nofun nofun ?_
    rw [task]
    exact Nat.le.refl
  case h_7 task =>
    cases stepped
    rw [task] at serves
    refine nearer (failed serves _) nofun nofun ?_
    rw [task]
    exact Nat.zero_lt_succ _
  case h_8 task =>
    cases stepped
    rw [task] at serves
    refine nearer (failed serves _) nofun nofun ?_
    rw [task]
    exact Nat.zero_lt_succ _
  case h_9 task =>
    cases stepped
    rw [task] at serves
    refine nearer serves nofun nofun ?_
    rw [task]
    exact Nat.le.refl
  case h_10 task =>
    split at stepped
    · cases stepped
      rw [task] at serves
      refine nearer (failed serves _) nofun nofun ?_
      rw [task]
      exact Nat.zero_lt_succ _
    · cases stepped
  case h_11 task =>
    split at stepped
    · cases stepped
      rw [task] at serves
      refine nearer (failed serves _) nofun nofun ?_
      rw [task]
      exact Nat.zero_lt_succ _
    · cases stepped
  case h_12 task =>
    cases stepped
    rw [task] at serves
    refine nearer ((session.requested_recordHash _ _).1.trans serves) nofun nofun ?_
    rw [task]
    exact Nat.le.refl
  case h_13 task =>
    cases stepped
    rw [task] at serves
    refine nearer ((session.fields_emitReconcile _).1.trans serves) nofun nofun ?_
    rw [task]
    exact Nat.le.refl
  case h_14 task =>
    split at stepped
    · cases stepped
      rw [task] at serves
      refine nearer serves nofun nofun ?_
      rw [task]
      exact Nat.zero_lt_succ _
    · cases stepped
  case h_15 task =>
    split at stepped
    · cases stepped
      rw [task] at serves
      refine nearer serves nofun nofun ?_
      rw [task]
      exact Nat.zero_lt_succ _
    · cases stepped

theorem persistStep_isSome {session : Session R} (serves : session.Serves)
    (waits : session.persist ≠ .awaitTransition) (disk : Disk) :
    (session.persistStep disk .ok).isSome = true := by
  unfold Serves at serves
  unfold persistStep
  cases task : session.persist with
  | idle =>
      rw [task] at serves
      exact serves.elim
  | awaitTransition => exact absurd task waits
  | _ => rfl

/-- A loop with a request to meet will capture the text. -/
theorem Serves.willMaterialize {session : Session R} (serves : session.Serves) :
    session.WillMaterialize := by
  induction distance : session.persist.distance using Nat.strongRecOn generalizing session with
  | ind distance ih =>
      by_cases waits : session.persist = .awaitTransition
      · exact .waiting waits
      · refine .step (persistStep_isSome serves waits) ?_
        intro disk io next nextDisk stepped live uncaptured
        rcases serves_persistStep serves live stepped with captured | waiting | ⟨served, nearer⟩
        · rw [uncaptured] at captured
          cases captured
        · exact .waiting waiting
        · exact ih _ (distance ▸ nearer) served rfl

/-- The request of a transaction is met, or the loop that runs is still to test it. -/
theorem captures_handleDocumentUpdate {session : Session R} (live : session.deleted = false)
    (running : session.persist ≠ .settle) (doc : R.Doc) (attribution : Option R.Attribution) :
    session.captures ({ session with doc := doc }.handleDocumentUpdate attribution) = true ∨
      ({ session with doc := doc }.handleDocumentUpdate attribution).Serves := by
  rw [handleDocumentUpdate, if_neg (by simp [live])]
  exact @captures_requestPersist R
    { session with doc := doc, pendingPersistAttribution := attribution } live running

theorem Serves.running {session : Session R} (serves : session.Serves) :
    session.persist ≠ .settle := by
  intro settling
  unfold Serves at serves
  rw [settling] at serves
  exact serves

/-- What is kept of the loop in steps that are not its own. -/
structure LeavesLoop (session next : Session R) : Prop where
  outcomes : next.persistOutcomes = session.persistOutcomes
  running : session.persist ≠ .idle → next.persist ≠ .idle
  deleted : session.deleted = true → next.deleted = true
  serves : session.Serves → next.deleted = false →
    session.captures next = true ∨ next.Serves

theorem LeavesLoop.of_same {session next : Session R}
    (outcomes : next.persistOutcomes = session.persistOutcomes)
    (persist : next.persist = session.persist)
    (requested : next.persistRequested = session.persistRequested)
    (deleted : session.deleted = true → next.deleted = true) : LeavesLoop session next :=
  ⟨outcomes, fun running => persist.trans_ne running, deleted,
    fun serves _ => .inr (serves.congr persist requested)⟩

theorem LeavesLoop.requestPersist (session : Session R) :
    LeavesLoop session session.requestPersist := by
  refine ⟨?_, ?_, fun deleted => (deleted_requestPersist session).trans deleted, ?_⟩
  · unfold Session.requestPersist
    split
    · exact (promise_startMaterialize _).2
    · rfl
  · intro running
    unfold Session.requestPersist
    split
    · exact (promise_startMaterialize _).1
    · exact running
  · intro serves live
    exact captures_requestPersist ((deleted_requestPersist session).symm.trans live) serves.running

theorem LeavesLoop.handleDocumentUpdate (session : Session R) (doc : R.Doc)
    (attribution : Option R.Attribution) :
    LeavesLoop session ({ session with doc := doc }.handleDocumentUpdate attribution) := by
  unfold Session.handleDocumentUpdate
  split
  · exact .of_same rfl rfl rfl id
  · obtain ⟨outcomes, running, deleted, serves⟩ := LeavesLoop.requestPersist
      ({ session with doc := doc, pendingPersistAttribution := attribution } : Session R)
    exact ⟨outcomes, running, deleted, serves⟩

theorem LeavesLoop.markDeleted (session : Session R) :
    LeavesLoop session session.markDeleted := by
  unfold Session.markDeleted
  split
  · exact .of_same rfl rfl rfl id
  · exact .of_same rfl rfl rfl fun _ => rfl

theorem LeavesLoop.flush (session : Session R) : LeavesLoop session session.flush.1 := by
  rcases session.flush_cases with same | requested
  · rw [same]
    exact .of_same rfl rfl rfl id
  · rw [requested]
    exact .requestPersist session

theorem LeavesLoop.flushStep {session next : Session R} {task nextTask : FlushTask}
    (stepped : session.flushStep task = some (next, nextTask)) : LeavesLoop session next := by
  rcases flushStep_cases stepped with same | requested
  · rw [same]
    exact .of_same rfl rfl rfl id
  · rw [requested]
    exact .requestPersist session

theorem LeavesLoop.prepareStep {session next : Session R} {task nextTask : PrepareTask}
    (stepped : session.prepareStep task = some (next, nextTask)) : LeavesLoop session next := by
  have still : LeavesLoop session session := .of_same rfl rfl rfl id
  have flushed : ∀ session : Session R, LeavesLoop session session.flushForTransition.1 := by
    intro session
    unfold flushForTransition
    split
    · exact .of_same rfl rfl rfl id
    · exact .flush session
  unfold Session.prepareStep at stepped
  split at stepped
  · split at stepped
    · split at stepped
      · cases stepped
        exact still
      · split at stepped
        · have kept := flushed session.stopWatching
          rw [Option.some.inj stepped] at kept
          exact ⟨kept.outcomes, kept.running, kept.deleted, kept.serves⟩
        · cases stepped
          exact .of_same rfl rfl rfl id
    · cases stepped
  · split at stepped
    · have kept := flushed session
      rw [Option.some.inj stepped] at kept
      exact kept
    · cases stepped
  · cases stepped
    exact still
  · cases stepped
    split <;> exact .of_same rfl rfl rfl id
  · obtain ⟨⟨result, resultTask⟩, moved, same⟩ := Option.map_eq_some_iff.mp stepped
    cases same
    exact .flushStep moved
  · cases stepped
  · cases stepped

/-- A rejected transition leaves the request of the loop to its next test. -/
theorem LeavesLoop.rejectTransition {session : Session R}
    (served : session.persist = .awaitTransition → session.persistRequested = true) :
    LeavesLoop session session.rejectTransition := by
  unfold Session.rejectTransition
  split
  · rename_i waiting
    exact ⟨rfl, fun _ => nofun, id, fun _ _ => .inr (served waiting)⟩
  · exact .of_same rfl rfl rfl id

theorem LeavesLoop.resumed {session : Session R}
    (served : session.persist = .awaitTransition → session.persistRequested = true) :
    LeavesLoop session session.resumeWatching.rejectTransition := by
  unfold resumeWatching
  split
  · exact .rejectTransition served
  · obtain ⟨outcomes, running, deleted, serves⟩ :=
      @LeavesLoop.rejectTransition R session.startWatching served
    exact ⟨outcomes, running, deleted, serves⟩

/-- A path mutation leaves the loop with its request, unless it rejects the transition
the loop waits for. -/
theorem LeavesLoop.mutate {session next : Session R} {disk nextDisk : Disk}
    {task nextTask : MutationTask} {io : Io}
    (served : Tenancy.rejects ⟨⟨session, disk⟩, task⟩ (.proceed io : TenancyLabel R) = true →
      session.persist = .awaitTransition → session.persistRequested = true)
    (stepped : session.mutate disk task io = some (next, nextDisk, nextTask)) :
    LeavesLoop session next := by
  unfold Session.mutate at stepped
  split at stepped
  case h_4 =>
    obtain ⟨⟨result, resultTask⟩, moved, same⟩ := Option.map_eq_some_iff.mp stepped
    cases same
    exact .prepareStep moved
  case h_8 =>
    cases stepped
    exact .resumed (served rfl)
  case h_9 =>
    split at stepped
    · rename_i deleted
      cases stepped
      exact .rejectTransition (served deleted)
    · cases stepped
      exact .of_same rfl rfl rfl id
  case h_19 =>
    cases stepped
    exact .markDeleted session
  case h_20 =>
    cases stepped
    exact .resumed (served rfl)
  all_goals try split at stepped
  all_goals cases stepped
  all_goals first
    | exact .of_same rfl rfl rfl id
    | exact .rejectTransition (served rfl)

theorem LeavesLoop.checkStep {session next : Session R} {disk nextDisk : Disk} {io : Io}
    (stepped : session.checkStep disk io = some (next, nextDisk)) : LeavesLoop session next := by
  have schedule := schedule_checkStep stepped
  refine .of_same (congrArg Schedule.persistOutcomes schedule) (congrArg Schedule.persist schedule)
    (congrArg Schedule.persistRequested schedule) ?_
  intro deleted
  unfold Session.checkStep at stepped
  split at stepped
  case h_3 diskContent task =>
    cases stepped
    unfold compareCheck
    cases diskContent with
    | none => exact deleted_markDeleted session
    | some content =>
        dsimp only
        split
        · exact deleted
        · have gone := deleted_reconcileExternalContent deleted (some content)
          split
          all_goals
            rename_i same
            rw [same] at gone
            exact gone
  all_goals try split at stepped
  all_goals cases stepped
  all_goals first
    | exact deleted
    | exact (fields_emitReconcile session _).2.trans deleted

/-- What a step of the loop does to its promise and to the mark of deletion. -/
theorem loop_persistStep {session next : Session R} {disk nextDisk : Disk} {io : Io}
    (stepped : session.persistStep disk io = some (next, nextDisk)) :
    (session.deleted = true → next.deleted = true) ∧
      (next.persist = .idle → session.persist = .settle) := by
  unfold persistStep at stepped
  split at stepped
  case h_5 content attribution diskContent task =>
    cases stepped
    refine ⟨(session.requested_compareDisk content attribution diskContent).2.1, ?_⟩
    intro idle
    exact absurd idle (session.promise_compareDisk content attribution diskContent).1
  case h_16 task =>
    cases stepped
    unfold loopTest
    split
    · refine ⟨(deleted_startMaterialize session).trans, ?_⟩
      intro idle
      exact absurd idle (promise_startMaterialize session).1
    · exact ⟨id, nofun⟩
  case h_17 task =>
    cases stepped
    exact ⟨id, fun _ => task⟩
  all_goals try split at stepped
  all_goals cases stepped
  all_goals first
    | exact ⟨id, nofun⟩
    | exact ⟨(fields_clearPendingWrite session _).2.trans, nofun⟩
    | exact ⟨(requested_recordHash session _ _).2.trans, nofun⟩
    | exact ⟨(fields_emitReconcile session _).2.trans, nofun⟩
    | (unfold captureContent; split <;> exact ⟨id, nofun⟩)

end Session

namespace Tenancy

variable {R : Runtime}

/-- A step leaves the loop alone, or is a step of the loop. -/
theorem leavesLoop_step {state next : Tenancy R} {label : TenancyLabel R}
    (allowed : ¬ state.DropsRequest label)
    (stepped : (tenancyMachine R).step state label = some next) :
    Session.LeavesLoop state.site.session next.site.session ∨
      ∃ io, state.site.session.persistStep state.site.disk io =
        some (next.site.session, next.site.disk) := by
  simp only [tenancyMachine] at stepped
  cases label with
  | session label =>
      obtain ⟨site, moved, rfl⟩ := Option.map_eq_some_iff.mp stepped
      simp only [sessionMachine] at moved
      cases label with
      | update update attribution =>
          dsimp only at moved
          split at moved
          · obtain rfl := Option.some.inj moved
            left
            dsimp only [Session.applyUpdate]
            split
            · exact .handleDocumentUpdate _ _ attribution
            · exact .of_same rfl rfl rfl id
          · cases moved
      | edit content attribution =>
          dsimp only at moved
          split at moved
          · obtain rfl := Option.some.inj moved
            left
            dsimp only [Session.applyContent]
            split
            · exact .of_same rfl rfl rfl id
            · exact .handleDocumentUpdate _ _ attribution
          · cases moved
      | retry =>
          dsimp only at moved
          split at moved
          · obtain rfl := Option.some.inj moved
            exact .inl (.requestPersist _)
          · cases moved
      | persist io =>
          obtain ⟨⟨session, disk⟩, persisted, rfl⟩ := Option.map_eq_some_iff.mp moved
          exact .inr ⟨io, persisted⟩
      | startCheck =>
          obtain ⟨session, started, rfl⟩ := Option.map_eq_some_iff.mp moved
          have schedule := Session.schedule_startCheck started
          left
          refine .of_same (congrArg Session.Schedule.persistOutcomes schedule)
            (congrArg Session.Schedule.persist schedule)
            (congrArg Session.Schedule.persistRequested schedule) ?_
          unfold Session.startCheck at started
          split at started
          · split at started
            · obtain rfl := Option.some.inj started
              exact id
            · cases started
          · cases started
      | check io =>
          obtain ⟨⟨session, disk⟩, checked, rfl⟩ := Option.map_eq_some_iff.mp moved
          exact .inl (.checkStep checked)
      | external content =>
          obtain rfl := Option.some.inj moved
          exact .inl (.of_same rfl rfl rfl id)
  | mutate mutation =>
      dsimp only at stepped
      split at stepped
      · split at stepped
        · cases stepped
        · obtain rfl := Option.some.inj stepped
          exact .inl (.of_same rfl rfl rfl id)
      · cases stepped
  | proceed io =>
      obtain ⟨⟨session, disk, task⟩, moved, rfl⟩ := Option.map_eq_some_iff.mp stepped
      refine .inl (.mutate ?_ moved)
      intro rejects waiting
      simp only [DropsRequest, waiting] at allowed
      by_contra unrequested
      exact allowed ⟨rejects, by simpa using unrequested⟩

/-- The request of an update that is applied is met, or the loop is still to test
it. -/
theorem captures_of_fires {state next : Tenancy R} {label : TenancyLabel R}
    (allowed : ¬ state.DropsRequest label) (fires : state.fires label = true)
    (stepped : (tenancyMachine R).step state label = some next) :
    state.site.session.captures next.site.session = true ∨ next.site.session.Serves := by
  have running : state.site.session.persist ≠ .settle := by
    intro settling
    simp only [DropsRequest, settling] at allowed
    exact allowed fires
  simp only [tenancyMachine] at stepped
  match label with
  | .session (.update update attribution) =>
      obtain ⟨site, moved, rfl⟩ := Option.map_eq_some_iff.mp stepped
      simp only [sessionMachine] at moved
      split at moved
      · rename_i open_
        obtain rfl := Option.some.inj moved
        have live : state.site.session.deleted = false := by simpa using open_.2
        have fired : R.firesUpdate state.site.session.doc update = true := fires
        dsimp only [Session.applyUpdate]
        rw [if_pos fired]
        exact Session.captures_handleDocumentUpdate live running _ attribution
      · cases moved
  | .session (.edit content attribution) =>
      obtain ⟨site, moved, rfl⟩ := Option.map_eq_some_iff.mp stepped
      simp only [sessionMachine] at moved
      split at moved
      · rename_i open_
        obtain rfl := Option.some.inj moved
        have live : state.site.session.deleted = false := by simpa using open_.2
        have changes : state.site.session.currentContent ≠ content := by
          simpa [Tenancy.fires] using fires
        dsimp only [Session.applyContent]
        rw [if_neg changes]
        exact Session.captures_handleDocumentUpdate live running _ attribution
      · cases moved

end Tenancy

/-- What a flush can rely on: once the promise it awaits is settled, everything applied
before the call has been captured. -/
def FlushCall.Kept {R : Runtime} (call : FlushCall) (session : Session R) (captured : Nat) :
    Prop :=
  call.applied ≤ captured ∨
    match call.task with
    | .awaitPersist generation | .awaitRetry generation =>
        generation = session.generation ∧ session.persist ≠ .idle
    | .resolved | .rejected => False

namespace Coalescing

variable {R : Runtime}

/-- What has not been captured is served, and no flush ends before it is. -/
structure Kept (books : Coalescing R) : Prop where
  bound : books.captured ≤ books.applied
  served : books.state.site.session.deleted = false → books.captured < books.applied →
    books.state.site.session.Serves
  called : ∀ call ∈ books.flushes, call.applied ≤ books.applied
  flushes : books.state.site.session.deleted = false →
    ∀ call ∈ books.flushes, call.Kept books.state.site.session books.captured

/-- No request is dropped: what has not been captured will be, and a flush that has
resolved has seen a capture of everything applied before it was called. -/
structure DropsNothing (books : Coalescing R) : Prop where
  served : books.state.site.session.deleted = false → books.captured < books.applied →
    books.state.site.session.WillMaterialize
  flushed : books.state.site.session.deleted = false → ∀ call ∈ books.flushes,
    call.task = .resolved → call.applied ≤ books.captured

theorem Kept.dropsNothing {books : Coalescing R} (kept : books.Kept) : books.DropsNothing where
  served live uncaptured := (kept.served live uncaptured).willMaterialize
  flushed live call member resolved := by
    rcases kept.flushes live call member with captured | pending
    · exact captured
    · rw [resolved] at pending
      exact pending.elim

/-- What a session has to show for the books to be kept across a step. -/
theorem Kept.advance {books : Coalescing R} {state : Tenancy R} {fires : Bool}
    {flushes : List FlushCall} (kept : books.Kept)
    (deleted : books.state.site.session.deleted = true → state.site.session.deleted = true)
    (serves : state.site.session.deleted = false →
      fires = true ∨ books.state.site.session.Serves →
      books.state.site.session.captures state.site.session = true ∨ state.site.session.Serves)
    (called : ∀ call ∈ flushes, call.applied ≤ books.applied)
    (waits : state.site.session.deleted = false → ∀ call ∈ flushes,
      call.Kept state.site.session (books.advance state fires flushes).captured) :
    (books.advance state fires flushes).Kept := by
  have live : state.site.session.deleted = false →
      books.state.site.session.deleted = false := by
    intro after
    by_contra before
    exact absurd ((deleted (by simpa using before)).symm.trans after) (by decide)
  have grows : books.applied ≤ (books.advance state fires flushes).applied := by
    change books.applied ≤ if fires then books.applied + 1 else books.applied
    split <;> omega
  refine ⟨?_, ?_, fun call member => Nat.le_trans (called call member) grows, waits⟩
  · change (if _ then (books.advance state fires flushes).applied else books.captured) ≤ _
    split
    · exact le_refl _
    · exact Nat.le_trans kept.bound grows
  · intro after uncaptured
    change (if books.state.site.session.captures state.site.session then
      (books.advance state fires flushes).applied else books.captured) <
        (books.advance state fires flushes).applied at uncaptured
    split at uncaptured
    · exact absurd uncaptured (lt_irrefl _)
    · rename_i not
      refine (serves after ?_).resolve_left not
      cases fires with
      | true => exact .inl rfl
      | false => exact .inr (kept.served (live after) uncaptured)

/-- A step forgets no captured update. -/
theorem Kept.captured_le {books : Coalescing R} {state : Tenancy R} {fires : Bool}
    {flushes : List FlushCall} (kept : books.Kept) :
    books.captured ≤ (books.advance state fires flushes).captured := by
  have bound := kept.bound
  unfold Coalescing.advance
  dsimp only
  split
  · split <;> omega
  · exact le_refl _

/-- Without a running loop everything has been captured. -/
theorem Kept.captured_eq {books : Coalescing R} (kept : books.Kept)
    (live : books.state.site.session.deleted = false)
    (rests : ¬ books.state.site.session.Serves) : books.captured = books.applied := by
  have bound := kept.bound
  by_contra different
  exact rests (kept.served live (by omega))

/-- A call that waits keeps what it can rely on in a step. -/
theorem Kept.call {books : Coalescing R} {state : Tenancy R} {fires : Bool}
    {flushes : List FlushCall} {call : FlushCall} (kept : books.Kept)
    (live : books.state.site.session.deleted = false) (member : call ∈ books.flushes)
    (loop : Session.LeavesLoop books.state.site.session state.site.session ∨
      ∃ io, books.state.site.session.persistStep books.state.site.disk io =
        some (state.site.session, state.site.disk)) :
    call.Kept state.site.session (books.advance state fires flushes).captured := by
  have grows := @Kept.captured_le R books state fires flushes kept
  rcases kept.flushes live call member with captured | pending
  · exact .inl (Nat.le_trans captured grows)
  · have waiting : ∀ generation, generation = books.state.site.session.generation ∧
        books.state.site.session.persist ≠ .idle →
        call.applied ≤ (books.advance state fires flushes).captured ∨
          generation = state.site.session.generation ∧ state.site.session.persist ≠ .idle := by
      rintro generation ⟨rfl, running⟩
      rcases loop with leaves | ⟨io, persisted⟩
      · right
        exact ⟨congrArg List.length leaves.outcomes.symm, leaves.running running⟩
      · rcases Session.promise_persistStep persisted with ⟨busy, same⟩ | ⟨idle, _⟩
        · right
          exact ⟨congrArg List.length same.symm, busy⟩
        · left
          have settling := (Session.loop_persistStep persisted).2 idle
          have called := kept.called call member
          have rests : ¬ books.state.site.session.Serves := fun serves => serves.running settling
          rw [← kept.captured_eq live rests] at called
          exact Nat.le_trans called grows
    unfold FlushCall.Kept
    cases task : call.task with
    | awaitPersist generation =>
        rw [task] at pending
        exact waiting generation pending
    | awaitRetry generation =>
        rw [task] at pending
        exact waiting generation pending
    | resolved =>
        rw [task] at pending
        exact pending.elim
    | rejected =>
        rw [task] at pending
        exact pending.elim

theorem Kept.step {books next : Coalescing R} {label : CoalesceLabel R} (kept : books.Kept)
    (allowed : ¬ books.Drops label)
    (stepped : (coalesceMachine R).step books label = some next) : next.Kept := by
  simp only [coalesceMachine] at stepped
  cases label with
  | session label =>
      obtain ⟨state, moved, rfl⟩ := Option.map_eq_some_iff.mp stepped
      have loop := Tenancy.leavesLoop_step allowed moved
      have deleted : books.state.site.session.deleted = true →
          state.site.session.deleted = true := by
        rcases loop with leaves | ⟨io, persisted⟩
        · exact leaves.deleted
        · exact (Session.loop_persistStep persisted).1
      refine kept.advance deleted ?_ kept.called ?_
      · rintro live (fires | serves)
        · exact Tenancy.captures_of_fires allowed fires moved
        · rcases loop with leaves | ⟨io, persisted⟩
          · exact leaves.serves serves live
          · rcases Session.serves_persistStep serves live persisted with
              captured | waiting | ⟨served, _⟩
            · exact .inl captured
            · right
              unfold Session.Serves
              rw [waiting]
              trivial
            · exact .inr served
      · intro live call member
        refine kept.call ?_ member loop
        by_contra before
        exact absurd ((deleted (by simpa using before)).symm.trans live) (by decide)
  | flush =>
      obtain rfl := Option.some.inj stepped
      have leaves := Session.LeavesLoop.flush books.state.site.session
      refine kept.advance leaves.deleted ?_ ?_ ?_
      · rintro live (fires | serves)
        · cases fires
        · exact leaves.serves serves live
      · intro call member
        rcases List.mem_append.mp member with old | new
        · exact kept.called call old
        · rw [List.mem_singleton.mp new]
      · intro live call member
        have before : books.state.site.session.deleted = false := by
          by_contra gone
          exact absurd ((leaves.deleted (by simpa using gone)).symm.trans live) (by decide)
        rcases List.mem_append.mp member with old | new
        · exact kept.call before old (.inl leaves)
        · rw [List.mem_singleton.mp new]
          change FlushCall.Kept _ books.state.site.session.flush.1 _
          unfold FlushCall.Kept Session.flush
          split
          · rename_i idle
            unfold Session.retryFlush
            split
            · right
              have requested := Session.LeavesLoop.requestPersist books.state.site.session
              refine ⟨congrArg List.length requested.outcomes.symm, ?_⟩
              unfold Session.requestPersist
              rw [if_pos idle]
              exact (Session.promise_startMaterialize _).1
            · left
              have rests : ¬ books.state.site.session.Serves := by
                unfold Session.Serves
                rw [PersistTask.isIdle_iff.mp idle]
                exact id
              exact Nat.le_trans (Nat.le_of_eq (kept.captured_eq before rests).symm) kept.captured_le
          · rename_i busy
            exact .inr ⟨rfl, fun idle => busy (PersistTask.isIdle_iff.mpr idle)⟩
  | resume index =>
      dsimp only at stepped
      split at stepped
      · cases stepped
      · rename_i call found
        obtain ⟨⟨session, task⟩, flushed, rfl⟩ := Option.map_eq_some_iff.mp stepped
        have leaves := Session.LeavesLoop.flushStep flushed
        have member := List.mem_of_getElem? found
        refine kept.advance leaves.deleted ?_ ?_ ?_
        · rintro live (fires | serves)
          · cases fires
          · exact leaves.serves serves live
        · intro other listed
          rcases List.mem_or_eq_of_mem_set listed with old | rfl
          · exact kept.called other old
          · exact kept.called call member
        · intro live other listed
          have before : books.state.site.session.deleted = false := by
            by_contra gone
            exact absurd ((leaves.deleted (by simpa using gone)).symm.trans live) (by decide)
          rcases List.mem_or_eq_of_mem_set listed with old | rfl
          · exact kept.call before old (.inl leaves)
          · left
            refine le_trans ?_ kept.captured_le
            rcases kept.flushes before call member with captured | pending
            · exact captured
            · exfalso
              cases place : call.task with
              | awaitPersist generation =>
                  rw [place] at pending flushed
                  rw [pending.1] at flushed
                  simp [Session.flushStep, Session.generation] at flushed
              | awaitRetry generation =>
                  rw [place] at pending flushed
                  rw [pending.1] at flushed
                  simp [Session.flushStep, Session.generation] at flushed
              | resolved =>
                  rw [place] at pending
                  exact pending
              | rejected =>
                  rw [place] at pending
                  exact pending

end Coalescing

/-- **No request is dropped.** In every run of an open session with its flushes, in
which no update is applied between the end of a persist loop and the clearing of its
promise, and no path transition is rejected under a materialization that waits for
it: as long as the session is not deleted, an update that no materialization has
captured is served by a loop that will capture it, and every flush that has resolved
has seen a capture of all updates applied before it was called. -/
theorem no_request_dropped {R : Runtime} {source : Tenancy R} {target : Coalescing R}
    {labels : List (CoalesceLabel R)}
    (run : (coalesceMachine R).Run (fun books label => ¬ books.Drops label)
      ⟨source, 0, 0, []⟩ labels target) : target.DropsNothing := by
  have start : Coalescing.Kept ⟨source, 0, 0, []⟩ :=
    ⟨le_refl 0, fun _ uncaptured => absurd uncaptured (lt_irrefl 0), nofun, fun _ => nofun⟩
  have keep : ∀ (books : Coalescing R) label next, ¬ books.Drops label →
      (coalesceMachine R).step books label = some next → books.Kept → next.Kept :=
    fun _ _ _ allowed stepped kept => kept.step allowed stepped
  exact (run.invariant keep start).dropsNothing

/-- The note `n.md` with its sidecar, opened on a content, with empty books. -/
def Replica.coalescing (content : JsString) : Coalescing replicaRuntime :=
  ⟨⟨openedSite content, .idle⟩, 0, 0, []⟩

/-- A client types while the loop that has saved its first letter is at its end. The
promise of the loop is then cleared without a further test, and a flush resolves at
once: nobody is going to save the second letter. -/
theorem dropped_request :
    ∃ (labels : List (CoalesceLabel replicaRuntime)) (target : Coalescing replicaRuntime),
      (coalesceMachine replicaRuntime).Run (fun _ _ => True) (Replica.coalescing [97]) labels
        target ∧
      target.state.site.session.deleted = false ∧ target.captured < target.applied ∧
      ¬ target.state.site.session.WillMaterialize ∧
      target.flushes.map FlushCall.applied = [2] ∧
      target.flushes.map FlushCall.task = [.resolved] := by
  refine ⟨[.session (.session (.update (.insert 1 1 [98]) none)),
    .session (.session (.persist .ok)), .session (.session (.persist .ok)),
    .session (.session (.persist .ok)), .session (.session (.persist .ok)),
    .session (.session (.persist .ok)), .session (.session (.persist .ok)),
    .session (.session (.update (.insert 1 2 [99]) none)),
    .session (.session (.persist .ok)), .flush], _, Machine.evaluate_sound rfl, by decide,
    by decide, ?_, by decide, by decide⟩
  rintro (waiting | ⟨enabled, _⟩)
  · cases waiting
  · exact absurd (enabled ⟨fun _ => none, fun _ => none⟩) (by decide)

/-- A client types while the loop writes its first letter: the loop captures the
second one before a flush resolves. -/
theorem no_request_dropped_typed :
    ∃ target, (coalesceMachine replicaRuntime).Run (fun books label => ¬ books.Drops label)
        (Replica.coalescing [97])
        [.session (.session (.update (.insert 1 1 [98]) none)),
          .session (.session (.persist .ok)), .session (.session (.persist .ok)),
          .session (.session (.update (.insert 1 2 [99]) none)), .flush,
          .session (.session (.persist .ok))] target ∧
      target.captured < target.applied ∧ target.DropsNothing := by
  have run : (coalesceMachine replicaRuntime).Run (fun books label => ¬ books.Drops label)
      (Replica.coalescing [97])
      [.session (.session (.update (.insert 1 1 [98]) none)),
        .session (.session (.persist .ok)), .session (.session (.persist .ok)),
        .session (.session (.update (.insert 1 2 [99]) none)), .flush,
        .session (.session (.persist .ok))] _ := Machine.evaluate_sound rfl
  exact ⟨_, run, by decide, no_request_dropped run⟩

end Kb1Daemon
