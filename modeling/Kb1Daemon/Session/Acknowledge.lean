import Kb1Daemon.Session.Saving

/-! # Acknowledged means saved

A call that edits the document returns when its flush resolves, and a socket's
update is acknowledged then or with the next persisted content. The audit of a
run follows which edits the document holds, which texts it has shown with them,
and which edits have been in a text the file held.

`flush` also resolves when the persist loop has taken over the disk content or
has found the session deleted, so an edit that was dropped is acknowledged
(`discarded_update_acked`). When nothing is discarded before it is saved, no edit
arrives while a finished loop is not yet cleared away, and no edit without effect
is made while its text is neither on disk nor on its way there, every
acknowledged edit has been saved (`acknowledged_saved`).
-/

namespace Kb1Daemon

variable {R : Runtime}

namespace Call

/-- The call has edited the document. -/
def hasEdited (call : Call R) : Bool :=
  match call.task, call.request with
  | .returned _ _, .readWithBaseline => false
  | .flushing _, _ | .deferred, _ | .acked, _ | .returned _ _, _ => true
  | _, _ => false

/-- The edit of the call has been reported as made. -/
def isAcknowledged (call : Call R) : Bool :=
  match call.task, call.request with
  | .returned _ _, .readWithBaseline => false
  | .acked, _ | .returned _ _, _ => true
  | _, _ => false

/-- The content the call will apply when it continues. -/
def applies (call : Call R) (session : Session R) : Option JsString :=
  if session.deleted then none
  else
    match call.task, call.request with
    | .opening, .applyContent content _ => some content
    | .opening, .applyBaselineEdit baseline edit _ =>
        if baseline = session.currentBaseline then edit session.currentContent else none
    | .positioned content, _ => some content
    | _, _ => none

end Call

/-- A run with its books: the calls whose edit the document holds, the texts it
has shown with these calls, and the calls that have been in a text the file
held. -/
structure Audit (R : Runtime) where
  service : Service R
  live : List Nat
  history : List (JsString × List Nat)
  saved : List Nat

namespace Audit

/-- What the file holds. -/
def file (audit : Audit R) : Option JsString :=
  audit.service.site.disk.files audit.service.site.session.filePath

/-- Enter the present state into the books. -/
def observe (audit : Audit R) : Audit R :=
  let history := audit.history ++ [(audit.service.site.session.currentContent, audit.live)]
  { audit with
    history := history
    saved := audit.saved ++
      (history.filter fun entry => audit.file = some entry.1).flatMap Prod.snd }

/-- The books of a service without earlier edits. -/
def start (service : Service R) : Audit R := observe ⟨service, [], [], []⟩

end Audit

namespace Service

/-- A reconcile has replaced the text, or has marked the session deleted. -/
def discards (before after : Service R) : ServiceLabel R → Bool
  | .session (.persist _) | .session (.check _) =>
      after.site.session.deleted != before.site.session.deleted ||
        after.site.session.currentContent != before.site.session.currentContent
  | _ => false

/-- The calls that have edited the document in a step. -/
def newEdits (before after : Service R) : List Nat :=
  (List.range after.calls.length).filter fun index =>
    (after.calls[index]?).any Call.hasEdited && !(before.calls[index]?).any Call.hasEdited

end Service

/-- The books after a step of the service. -/
def Audit.advance (audit : Audit R) (label : ServiceLabel R) (next : Service R) : Audit R :=
  observe
    { audit with
      service := next
      live :=
        if audit.service.discards next label then []
        else audit.live ++ audit.service.newEdits next }

/-- The service with its books. -/
def auditMachine (R : Runtime) : Machine (Audit R) (ServiceLabel R) where
  step audit label :=
    ((serviceMachine R).step audit.service label).map (audit.advance label)

/-- A reconcile drops an edit that has not been saved. -/
def DiscardsUnsaved (audit : Audit R) (label : ServiceLabel R) : Prop :=
  ∃ next, (serviceMachine R).step audit.service label = some next ∧
    audit.service.discards next label = true ∧ ∃ index ∈ audit.live, index ∉ audit.saved

/-- No persist will carry an edit made now: it changes the document while the
promise of a finished loop is not yet cleared away, or it changes nothing while
its text is neither on disk nor on its way there. -/
def Session.Loses (session : Session R) (disk : Disk) (changes : Bool) : Prop :=
  if changes then session.persist = .settle ∧ session.loopFailure = false
  else
    disk.files session.filePath ≠ some session.currentContent ∧
      if session.persist.isIdle then session.persistFailureError = none
      else ¬ session.Pending fun content => content = session.currentContent

/-- The edit a call makes in this step is one no persist will carry. -/
def LosesEdit (service : Service R) : ServiceLabel R → Prop
  | .request (.ackedUpdate update _) =>
      service.site.session.Loses service.site.disk
        (R.firesUpdate service.site.session.doc update)
  | .resume index => ∃ call ∈ service.calls[index]?, ∃ content,
      call.applies service.site.session = some content ∧
        service.site.session.Loses service.site.disk
          (service.site.session.currentContent ≠ content)
  | _ => False

/-- Every edit that has been reported as made has been saved. -/
def AcknowledgedSaved (audit : Audit R) : Prop :=
  ∀ index, ∀ call ∈ audit.service.calls[index]?, call.isAcknowledged = true →
    index ∈ audit.saved

/-- What an edit that has not been saved can rely on, at the stage of its
call. -/
def CallTask.Awaits (session : Session R) (covers : JsString → Prop) : CallTask → Prop
  | .flushing (.awaitPersist generation) | .flushing (.awaitRetry generation) =>
      generation = session.generation ∧ session.persist ≠ .idle ∧ session.Pending covers ∨
        session.persistOutcomes[generation]? = some true ∧ session.Later covers
  | .flushing .rejected | .deferred => session.Later covers
  | _ => False

namespace Audit

/-- A content is one the document has shown with the edit of a call. -/
def Covers (audit : Audit R) (index : Nat) (content : JsString) : Prop :=
  ∃ ids, (content, ids) ∈ audit.history ∧ index ∈ ids

/-- The books are kept, and every edit that has not been saved is in the
document and on its way. -/
structure Accounted (audit : Audit R) : Prop where
  cold : audit.service.ColdWaits
  current : (audit.service.site.session.currentContent, audit.live) ∈ audit.history
  observed : ∀ index content, audit.Covers index content → audit.file = some content →
    index ∈ audit.saved
  unsaved : ∀ index, ∀ call ∈ audit.service.calls[index]?, call.hasEdited = true →
    index ∉ audit.saved →
      index ∈ audit.live ∧ audit.service.site.session.deleted = false ∧
        call.task.Awaits audit.service.site.session (audit.Covers index)

theorem mem_saved_observe {audit : Audit R} {index : Nat} :
    index ∈ audit.observe.saved ↔ index ∈ audit.saved ∨
      ∃ content, audit.observe.Covers index content ∧ audit.file = some content := by
  simp only [observe, Covers, List.mem_append, List.mem_flatMap, List.mem_filter,
    decide_eq_true_eq, Prod.exists]
  constructor
  · rintro (old | ⟨content, ids, ⟨entry, file⟩, listed⟩)
    · exact .inl old
    · exact .inr ⟨content, ⟨ids, entry, listed⟩, file⟩
  · rintro (old | ⟨content, ⟨ids, entry, listed⟩, file⟩)
    · exact .inl old
    · exact .inr ⟨content, ids, ⟨entry, file⟩, listed⟩

theorem covers_observe {audit : Audit R} {index : Nat} {content : JsString}
    (covered : audit.Covers index content) : audit.observe.Covers index content := by
  obtain ⟨ids, entry, listed⟩ := covered
  exact ⟨ids, List.mem_append_left _ entry, listed⟩

theorem covers_observe_current {audit : Audit R} {index : Nat} (live : index ∈ audit.live) :
    audit.observe.Covers index audit.service.site.session.currentContent :=
  ⟨audit.live, List.mem_append_right _ (by simp), live⟩

end Audit

namespace CallTask

variable {covers : JsString → Prop}

/-- A call waits for more contents too. -/
theorem Awaits.mono {session : Session R} {wider : JsString → Prop} {task : CallTask}
    (awaits : task.Awaits session covers) (widen : ∀ content, covers content → wider content) :
    task.Awaits session wider := by
  unfold Awaits at *
  split at awaits
  · exact awaits.imp (fun running => ⟨running.1, running.2.1, running.2.2.mono widen⟩)
      fun settled => ⟨settled.1, settled.2.mono widen⟩
  · exact awaits.imp (fun running => ⟨running.1, running.2.1, running.2.2.mono widen⟩)
      fun settled => ⟨settled.1, settled.2.mono widen⟩
  · exact awaits.mono widen
  · exact awaits.mono widen
  · exact awaits.elim

theorem Awaits.nudge {session next : Session R} {task : CallTask}
    (awaits : task.Awaits session covers) (nudged : Session.Nudged session next)
    (current : covers next.currentContent) : task.Awaits next covers := by
  have waiting {generation : Nat} (either : generation = session.generation ∧
      session.persist ≠ .idle ∧ session.Pending covers ∨
        session.persistOutcomes[generation]? = some true ∧ session.Later covers) :
      generation = next.generation ∧ next.persist ≠ .idle ∧ next.Pending covers ∨
        next.persistOutcomes[generation]? = some true ∧ next.Later covers := by
    rcases either with ⟨rfl, running, pending⟩ | ⟨settled, later⟩
    · obtain ⟨pending, running, outcomes⟩ := nudged.pending pending running current
      exact .inl ⟨by rw [Session.generation, Session.generation, outcomes], running, pending⟩
    · exact .inr ⟨by rw [nudged.outcomes]; exact settled, nudged.later later current⟩
  unfold Awaits at *
  split at awaits
  · exact waiting awaits
  · exact waiting awaits
  · exact nudged.later awaits current
  · exact nudged.later awaits current
  · exact awaits.elim

theorem Awaits.persistStep {session next : Session R} {disk nextDisk : Disk} {io : Io}
    {task : CallTask} (awaits : task.Awaits session covers)
    (current : covers session.currentContent) (live : session.deleted = false)
    (kept : next.deleted = false) (text : next.currentContent = session.currentContent)
    (unsaved : ∀ content, covers content → disk.files session.filePath ≠ some content)
    (stepped : session.persistStep disk io = some (next, nextDisk)) :
    (∃ content, covers content ∧ nextDisk.files session.filePath = some content) ∨
      task.Awaits next covers := by
  have waiting {generation : Nat} (either : generation = session.generation ∧
      session.persist ≠ .idle ∧ session.Pending covers ∨
        session.persistOutcomes[generation]? = some true ∧ session.Later covers) :
      (∃ content, covers content ∧ nextDisk.files session.filePath = some content) ∨
        (generation = next.generation ∧ next.persist ≠ .idle ∧ next.Pending covers ∨
          next.persistOutcomes[generation]? = some true ∧ next.Later covers) := by
    rcases either with ⟨rfl, _, pending⟩ | ⟨settled, later⟩
    · rcases Session.pending_persistStep pending current live kept text unsaved stepped with
        written | ⟨outcomes, running, pending⟩ | ⟨outcomes, idle⟩
      · exact .inl written
      · exact .inr (.inl ⟨by rw [Session.generation, Session.generation, outcomes], running,
          pending⟩)
      · refine .inr (.inr ⟨?_, ?_⟩)
        · rw [outcomes, Session.generation]
          simp
        · rw [Session.Later, idle]
          trivial
    · rcases Session.later_persistStep later current live kept text stepped with written | later
      · exact .inl written
      · obtain ⟨added, outcomes⟩ := Session.outcomes_persistStep stepped
        refine .inr (.inr ⟨?_, later⟩)
        obtain ⟨inside, value⟩ := List.getElem?_eq_some_iff.mp settled
        rw [outcomes, List.getElem?_append_left inside]
        exact settled
  unfold Awaits at *
  split at awaits
  · exact waiting awaits
  · exact waiting awaits
  · exact Session.later_persistStep awaits current live kept text stepped
  · exact Session.later_persistStep awaits current live kept text stepped
  · exact awaits.elim

/-- A flush whose edit has not been saved can only be rejected. -/
theorem Awaits.flushStep {session next : Session R} {task nextTask : FlushTask}
    (awaits : (CallTask.flushing task).Awaits session covers)
    (stepped : session.flushStep task = some (next, nextTask)) :
    next = session ∧ nextTask = .rejected ∧ session.Later covers := by
  have waiting {generation : Nat} (either : generation = session.generation ∧
      session.persist ≠ .idle ∧ session.Pending covers ∨
        session.persistOutcomes[generation]? = some true ∧ session.Later covers)
      {value : Bool} (settled : session.persistOutcomes[generation]? = some value) :
      value = true ∧ session.Later covers := by
    rcases either with ⟨rfl, _, _⟩ | ⟨failed, later⟩
    · simp [Session.generation] at settled
    · exact ⟨Option.some.inj (settled.symm.trans failed), later⟩
  cases task with
  | awaitPersist generation =>
      dsimp only [Session.flushStep] at stepped
      split at stepped
      · cases stepped
      · rename_i settled
        cases stepped
        exact ⟨rfl, rfl, (waiting awaits settled).2⟩
      · rename_i settled
        cases (waiting awaits settled).1
  | awaitRetry generation =>
      dsimp only [Session.flushStep] at stepped
      split at stepped
      · cases stepped
      · rename_i settled
        cases stepped
        exact ⟨rfl, rfl, (waiting awaits settled).2⟩
      · rename_i settled
        cases (waiting awaits settled).1
  | resolved => cases stepped
  | rejected => cases stepped

end CallTask

namespace Session

variable {covers : JsString → Prop}

/-- An edit that changes the document is on its way, unless it comes while a
finished loop is not yet cleared away. -/
theorem awaits_flush_changed {session : Session R} (live : session.deleted = false) {doc : R.Doc}
    (attribution : Option R.Attribution)
    (served : ¬ (session.persist = .settle ∧ session.loopFailure = false))
    (current : covers (R.text doc)) :
    (CallTask.flushing
      ({ session with doc := doc }.handleDocumentUpdate attribution).flush.2).Awaits
      ({ session with doc := doc }.handleDocumentUpdate attribution).flush.1 covers := by
  rw [handleDocumentUpdate, if_neg (by simp [live])]
  have settled : session.persist = .settle → session.loopFailure = true := by
    intro settling
    by_contra failed
    exact served ⟨settling, by simpa using failed⟩
  obtain ⟨pending, running, _⟩ := @pending_requestPersist R covers
    { session with doc := doc, pendingPersistAttribution := attribution } live current settled
  rw [flush, if_neg (fun idle => running (PersistTask.isIdle_iff.mp idle))]
  exact .inl ⟨rfl, running, pending⟩

/-- An edit that changes nothing is on its way, or on disk. -/
theorem awaits_flush_silent {session : Session R} {disk : Disk} (live : session.deleted = false)
    {doc : R.Doc} (text : R.text doc = session.currentContent)
    (served : ¬ session.Loses disk false) (current : covers session.currentContent) :
    disk.files session.filePath = some session.currentContent ∨
      (CallTask.flushing ({ session with doc := doc } : Session R).flush.2).Awaits
        ({ session with doc := doc } : Session R).flush.1 covers := by
  simp only [Loses, Bool.false_eq_true, ↓reduceIte, not_and] at served
  by_cases held : disk.files session.filePath = some session.currentContent
  · exact .inl held
  right
  have open_ := served held
  by_cases idle : session.persist.isIdle = true
  · simp only [idle, ↓reduceIte] at open_
    rw [flush, if_pos idle, retryFlush, if_pos (Option.isSome_iff_ne_none.mpr open_)]
    have settled : session.persist = .settle → session.loopFailure = true := by
      rw [PersistTask.isIdle_iff.mp idle]
      intro settling
      cases settling
    obtain ⟨pending, running, outcomes⟩ := @pending_requestPersist R covers
      { session with doc := doc } live (by rw [currentContent, text]; exact current) settled
    exact .inl ⟨by rw [generation, generation, outcomes], running, pending⟩
  · simp only [idle, Bool.false_eq_true, ↓reduceIte, not_not] at open_
    rw [flush, if_neg idle]
    refine .inl ⟨rfl, fun stopped => idle (PersistTask.isIdle_iff.mpr stopped), ?_⟩
    refine (open_.mono ?_).congr rfl text
    rintro content rfl
    exact current

end Session

namespace Session

theorem deleted_handleDocumentUpdate (session : Session R) (attribution : Option R.Attribution) :
    (session.handleDocumentUpdate attribution).deleted = session.deleted := by
  unfold handleDocumentUpdate
  split
  · rfl
  · exact deleted_requestPersist _

/-- An update deletes nothing. -/
theorem deleted_applyUpdate (session : Session R) (update : R.Update)
    (attribution : Option R.Attribution) :
    (session.applyUpdate update attribution).deleted = session.deleted := by
  unfold applyUpdate
  split
  · exact deleted_handleDocumentUpdate _ attribution
  · rfl

theorem deleted_applyContent (session : Session R) (content : JsString)
    (attribution : Option R.Attribution) :
    (session.applyContent content attribution).deleted = session.deleted := by
  unfold applyContent
  split
  · rfl
  · exact deleted_handleDocumentUpdate _ attribution

/-- A flush deletes nothing. -/
theorem deleted_flush (session : Session R) : session.flush.1.deleted = session.deleted := by
  rcases session.flush_cases with same | requested
  · rw [same]
  · rw [requested, deleted_requestPersist]

/-- The events of a step, none of which tells of a persisted content. -/
def Emits (session next : Session R) : Prop :=
  ∃ emitted, next.events = session.events ++ emitted ∧
    ∀ event ∈ emitted, event.kind ≠ .contentPersisted

theorem Emits.none {session next : Session R} (same : next.events = session.events) :
    Emits session next := ⟨[], by rw [same, List.append_nil], by simp⟩

theorem Emits.one {session next : Session R} {event : SessionEvent R}
    (same : next.events = session.events ++ [event]) (kind : event.kind ≠ .contentPersisted) :
    Emits session next := ⟨[event], same, by simpa using kind⟩

theorem emits_markDeleted (session : Session R) : Emits session session.markDeleted := by
  unfold markDeleted
  split
  · exact .none rfl
  · exact .one rfl (by simp [createEvent])

theorem emits_emitReconcile (session : Session R) (event : Option ExternalEvent) :
    Emits session (session.emitReconcile event) := by
  cases event with
  | none => exact .none rfl
  | some event =>
      refine .one rfl ?_
      cases event <;> simp [createEvent, ExternalEvent.kind]

theorem emits_reconcileExternalContent (session : Session R) (content : Option JsString) :
    Emits session (session.reconcileExternalContent content).1 := by
  cases content with
  | none => exact emits_markDeleted session
  | some content =>
      dsimp only [reconcileExternalContent]
      split <;> exact .none rfl

theorem emits_compareDisk (session : Session R) (content : JsString)
    (attribution : Option R.Attribution) (diskContent : Option JsString) :
    Emits session (session.compareDisk content attribution diskContent) := by
  unfold compareDisk
  split
  · rename_i expected _
    split
    · have reconciled := emits_reconcileExternalContent
        (session.warn expected (diskContent.map R.hashContent)) diskContent
      split
      · rename_i result same
        rw [same] at reconciled
        exact reconciled
      · rename_i result event same
        rw [same] at reconciled
        exact reconciled
    · exact .none rfl
  · exact .none rfl

theorem emits_startMaterialize (session : Session R) :
    Emits session session.startMaterialize := by
  unfold startMaterialize captureContent
  split
  · exact .none rfl
  · split <;> exact .none rfl

theorem events_requestPersist (session : Session R) :
    session.requestPersist.events = session.events := by
  unfold requestPersist startMaterialize captureContent
  split
  · split
    · rfl
    · split <;> rfl
  · rfl

theorem events_handleDocumentUpdate (session : Session R) (attribution : Option R.Attribution) :
    (session.handleDocumentUpdate attribution).events = session.events := by
  unfold handleDocumentUpdate
  split
  · rfl
  · exact events_requestPersist _

/-- Only the bookkeeping after both writes tells of a persisted content. -/
theorem emits_persistStep {session next : Session R} {disk nextDisk : Disk} {io : Io}
    (stepped : session.persistStep disk io = some (next, nextDisk))
    (elsewhere : ∀ content attribution, session.persist ≠ .recordHash content attribution) :
    Emits session next := by
  have failed (content : JsString) :
      Emits session (session.clearPendingWrite content).failMaterialize := by
    unfold clearPendingWrite
    split <;> exact .one rfl (by simp [createEvent])
  unfold persistStep at stepped
  split at stepped
  all_goals try split at stepped
  all_goals cases stepped
  all_goals first
    | exact .none rfl
    | exact emits_compareDisk session _ _ _
    | exact failed _
    | exact emits_emitReconcile session _
    | exact .one rfl (by simp [createEvent])
    | exact absurd ‹_› (elsewhere _ _)
    | skip
  · unfold captureContent
    split <;> exact .none rfl
  · unfold loopTest
    split
    · exact emits_startMaterialize session
    · exact .none rfl

theorem emits_checkStep {session next : Session R} {disk nextDisk : Disk} {io : Io}
    (stepped : session.checkStep disk io = some (next, nextDisk)) : Emits session next := by
  unfold checkStep at stepped
  split at stepped
  all_goals try split at stepped
  all_goals cases stepped
  all_goals first
    | exact .none rfl
    | exact emits_emitReconcile session _
    | skip
  rename_i diskContent _
  unfold compareCheck
  cases diskContent with
  | none => exact emits_markDeleted session
  | some content =>
      dsimp only
      split
      · exact .none rfl
      · have reconciled := emits_reconcileExternalContent session (some content)
        split
        · rename_i result same
          rw [same] at reconciled
          exact reconciled
        · rename_i result event same
          rw [same] at reconciled
          exact reconciled

end Session

namespace Service

/-- Every call hears every event of a step. -/
theorem hear_eq_map (before after : Session R) (calls : List (Call R)) :
    hear before after calls =
      calls.map fun call =>
        (after.events.drop before.events.length).foldl Call.hear call := by
  unfold hear
  generalize after.events.drop before.events.length = emitted
  induction emitted generalizing calls with
  | nil => simp
  | cons event events ih =>
      rw [List.foldl_cons, ih, List.map_map]
      rfl

end Service

namespace Call

/-- A call hears nothing new unless its acknowledgement is deferred. -/
theorem foldl_hear_of_not_deferred {call : Call R} (events : List (SessionEvent R))
    (busy : call.task ≠ .deferred) : events.foldl hear call = call := by
  induction events with
  | nil => rfl
  | cons event events ih =>
      have deaf : call.hear event = call := by
        unfold hear
        split
        · rename_i deferred _
          exact absurd deferred busy
        · rename_i deferred _
          exact absurd deferred busy
        · rfl
      rw [List.foldl_cons, deaf]
      exact ih

/-- Without news of a persisted content a call stays as it is, or drops its
acknowledgement. -/
theorem foldl_hear_of_unpersisted {call : Call R} {events : List (SessionEvent R)}
    (none : ∀ event ∈ events, event.kind ≠ .contentPersisted) :
    events.foldl hear call = call ∨ (events.foldl hear call).task = .failed := by
  induction events with
  | nil => exact .inl rfl
  | cons event events ih =>
      have heard : call.hear event = call ∨ (call.hear event).task = .failed := by
        unfold hear
        split
        · rename_i persisted
          exact absurd persisted (none event List.mem_cons_self)
        · exact .inr rfl
        · exact .inl rfl
      rw [List.foldl_cons]
      rcases heard with same | failed
      · rw [same]
        exact ih fun other listed => none other (List.mem_cons_of_mem _ listed)
      · rw [foldl_hear_of_not_deferred events (by simp [failed])]
        exact .inr failed

end Call

namespace Audit

variable {audit : Audit R} {label : ServiceLabel R} {next : Service R} {index : Nat}

theorem saved_of_advance (missing : index ∉ (audit.advance label next).saved) :
    index ∉ audit.saved ∧
      ∀ content, (audit.advance label next).Covers index content →
        next.site.disk.files next.site.session.filePath ≠ some content := by
  refine ⟨fun old => missing (mem_saved_observe.mpr (.inl old)), ?_⟩
  intro content covered held
  exact missing (mem_saved_observe.mpr (.inr ⟨content, covered, held⟩))

theorem covers_advance {content : JsString} (covered : audit.Covers index content) :
    (audit.advance label next).Covers index content := covers_observe covered

/-- An edit that has not been saved stays in the document in a step that drops
nothing unsaved. -/
theorem Accounted.stays (accounted : audit.Accounted) (careful : ¬ DiscardsUnsaved audit label)
    (stepped : (serviceMachine R).step audit.service label = some next) {call : Call R}
    (listed : call ∈ audit.service.calls[index]?) (edited : call.hasEdited = true)
    (missing : index ∉ (audit.advance label next).saved) :
    audit.service.discards next label = false ∧ index ∈ (audit.advance label next).live ∧
      (audit.advance label next).Covers index next.site.session.currentContent ∧
      audit.service.site.session.deleted = false ∧
      call.task.Awaits audit.service.site.session ((audit.advance label next).Covers index) := by
  have fresh := (saved_of_advance missing).1
  obtain ⟨live, undeleted, awaits⟩ := accounted.unsaved index call listed edited fresh
  have kept : audit.service.discards next label = false := by
    by_contra drops
    exact careful ⟨next, stepped, by simpa using drops, index, live, fresh⟩
  have stays : index ∈ (audit.advance label next).live := by
    simp only [advance, observe, kept, Bool.false_eq_true, ↓reduceIte]
    exact List.mem_append_left _ live
  exact ⟨kept, stays, ⟨_, List.mem_append_right _ List.mem_cons_self, stays⟩, undeleted,
    awaits.mono fun _ covered => covers_advance covered⟩

/-- A new edit enters the books. -/
theorem mem_live_of_new (kept : audit.service.discards next label = false) {call : Call R}
    (listed : call ∈ next.calls[index]?) (edited : call.hasEdited = true)
    (before : ∀ old ∈ audit.service.calls[index]?, old.hasEdited = false) :
    index ∈ (audit.advance label next).live := by
  simp only [advance, observe, kept, Bool.false_eq_true, ↓reduceIte]
  apply List.mem_append_right
  have inside : index < next.calls.length := (List.getElem?_eq_some_iff.mp listed).1
  have now : next.calls[index]? = some call := listed
  simp only [Service.newEdits, List.mem_filter, List.mem_range, inside, true_and, now,
    Option.any_some, edited, Bool.true_and, Bool.not_eq_eq_eq_not, Bool.not_true,
    Option.any_eq_false]
  intro old found
  simpa using before old found

theorem covers_advance_current (live : index ∈ (audit.advance label next).live) :
    (audit.advance label next).Covers index next.site.session.currentContent :=
  covers_observe_current live

/-- The edit of a call that has not been saved is in the document and on its
way. -/
def OnItsWay (audit : Audit R) (index : Nat) (task : CallTask) : Prop :=
  index ∈ audit.live ∧ audit.service.site.session.deleted = false ∧
    task.Awaits audit.service.site.session (audit.Covers index)

/-- An edit stays on its way when the session is at most nudged. -/
theorem Accounted.nudge (accounted : audit.Accounted) (careful : ¬ DiscardsUnsaved audit label)
    (stepped : (serviceMachine R).step audit.service label = some next) {call : Call R}
    (listed : call ∈ audit.service.calls[index]?) (edited : call.hasEdited = true)
    (missing : index ∉ (audit.advance label next).saved)
    (nudged : audit.service.site.session.deleted = false →
      Session.Nudged audit.service.site.session next.site.session ∧
        next.site.session.deleted = false) :
    (audit.advance label next).OnItsWay index call.task := by
  obtain ⟨_, stays, current, live, awaits⟩ :=
    accounted.stays careful stepped listed edited missing
  obtain ⟨moved, undeleted⟩ := nudged live
  exact ⟨stays, undeleted, awaits.nudge moved current⟩

/-- A new edit is on its way as soon as a persist will carry it. -/
theorem onItsWay_new (kept : audit.service.discards next label = false) {call : Call R}
    (listed : call ∈ next.calls[index]?) (edited : call.hasEdited = true)
    (before : ∀ old ∈ audit.service.calls[index]?, old.hasEdited = false)
    (undeleted : next.site.session.deleted = false)
    (missing : index ∉ (audit.advance label next).saved)
    (carried : (audit.advance label next).Covers index next.site.session.currentContent →
      next.site.disk.files next.site.session.filePath = some next.site.session.currentContent ∨
        call.task.Awaits next.site.session ((audit.advance label next).Covers index)) :
    (audit.advance label next).OnItsWay index call.task := by
  have live := mem_live_of_new kept listed edited before
  have current := covers_advance_current live
  refine ⟨live, undeleted, (carried current).resolve_left ?_⟩
  exact (saved_of_advance missing).2 _ current

/-- An edit that a call makes now is on its way. -/
theorem onItsWay_edit {call : Call R} {content : JsString} {attribution : Option R.Attribution}
    {session : Session R} {disk : Disk} {covers : JsString → Prop}
    (live : session.deleted = false)
    (served : ¬ session.Loses disk (session.currentContent ≠ content))
    (current : covers content) :
    disk.files session.filePath = some content ∨
      (call.edit session content attribution).2.task.Awaits
        (call.edit session content attribution).1 covers := by
  dsimp only [Call.edit, Call.standAt]
  unfold Session.applyContent
  split
  · rename_i same
    have quiet : ¬ session.Loses disk false := by
      simpa [same] using served
    have text : R.text session.doc = session.currentContent := rfl
    have shown : covers session.currentContent := by
      rw [same]
      exact current
    have saved := Session.awaits_flush_silent live text quiet shown
    rw [same] at saved
    exact saved
  · rename_i different
    right
    have lost : ¬ (session.persist = .settle ∧ session.loopFailure = false) := by
      simpa [Session.Loses, different] using served
    exact Session.awaits_flush_changed live attribution lost
      (by rw [R.text_applyDelta]; exact current)

/-- An update that a socket sends now is on its way. -/
theorem onItsWay_update {update : R.Update} {attribution : Option R.Attribution}
    {session : Session R} {disk : Disk} {covers : JsString → Prop}
    (live : session.deleted = false)
    (served : ¬ session.Loses disk (R.firesUpdate session.doc update))
    (current : covers (R.text (R.applyUpdate session.doc update))) :
    disk.files session.filePath = some (R.text (R.applyUpdate session.doc update)) ∨
      (CallTask.flushing (session.applyUpdate update attribution).flush.2).Awaits
        (session.applyUpdate update attribution).flush.1 covers := by
  unfold Session.applyUpdate
  split
  · rename_i fires
    right
    have lost : ¬ (session.persist = .settle ∧ session.loopFailure = false) := by
      simpa [Session.Loses, fires] using served
    exact Session.awaits_flush_changed live attribution lost current
  · rename_i silent
    have quiet : R.firesUpdate session.doc update = false := by simpa using silent
    have text := R.text_silent session.doc update quiet
    rw [quiet] at served
    rw [text] at current ⊢
    exact Session.awaits_flush_silent live text served current

theorem hasEdited_of_waiting {call : Call R} (waits : call.task = .opening ∨ call.task = .failed) :
    call.hasEdited = false := by
  unfold Call.hasEdited
  rcases waits with task | task <;> simp [task]

/-- A call arrives: the edits under way stay so, and an update is put on its
way. -/
theorem Accounted.request {request : Request R} (accounted : audit.Accounted)
    (careful : ¬ DiscardsUnsaved audit (.request request))
    (served : ¬ LosesEdit audit.service (.request request))
    (stepped : (serviceMachine R).step audit.service (.request request) = some next)
    {call : Call R} (listed : call ∈ next.calls[index]?) (edited : call.hasEdited = true)
    (missing : index ∉ (audit.advance (.request request) next).saved) :
    (audit.advance (.request request) next).OnItsWay index call.task := by
  have arrived := stepped
  simp only [serviceMachine, Service.request] at arrived
  split at arrived
  · rename_i update attribution
    split at arrived
    · rename_i open_
      have live : audit.service.site.session.deleted = false := by simpa using open_.2
      cases arrived
      have undeleted : ((audit.service.site.session.applyUpdate update attribution).flush.1).deleted
          = false := by
        rw [Session.deleted_flush, Session.deleted_applyUpdate]
        exact live
      by_cases inside : index < audit.service.calls.length
      · have old : call ∈ audit.service.calls[index]? := by
          rw [List.getElem?_append_left inside] at listed
          exact listed
        obtain ⟨_, stays, current, _, awaits⟩ :=
          accounted.stays careful stepped old edited missing
        have shown := current
        dsimp only at shown
        rw [Session.currentContent, Session.doc_flush] at shown
        refine ⟨stays, undeleted, ?_⟩
        exact (awaits.nudge (Session.nudged_applyUpdate live update attribution) shown).nudge
          (Session.nudged_flush (by rw [Session.deleted_applyUpdate]; exact live)) current
      · have outside := List.getElem?_eq_none_iff.mpr (Nat.le_of_not_lt inside)
        have last : call = ⟨.ackedUpdate update attribution, .flushing
            (audit.service.site.session.applyUpdate update attribution).flush.2, none⟩ := by
          have found : (audit.service.calls ++ [_])[index]? = some call := listed
          rw [List.getElem?_append_right (Nat.le_of_not_lt inside)] at found
          simpa using (List.mem_of_getElem? found)
        refine onItsWay_new rfl listed edited (by simp [outside]) undeleted missing ?_
        intro current
        have shown : (audit.service.site.session.applyUpdate update attribution).flush.1.doc =
            R.applyUpdate audit.service.site.session.doc update := by
          rw [Session.doc_flush]
          exact Session.doc_applyUpdate _ update attribution
        have path := congrArg Session.Binding.filePath (serviceMachine_binding stepped (by simp))
        change (audit.service.site.session.applyUpdate update attribution).flush.1.filePath =
          audit.service.site.session.filePath at path
        dsimp only at current ⊢
        rw [Session.currentContent, shown] at current ⊢
        rw [path, last]
        exact onItsWay_update live served current
    · cases arrived
  · cases arrived
    by_cases inside : index < audit.service.calls.length
    · have old : call ∈ audit.service.calls[index]? := by
        rw [List.getElem?_append_left inside] at listed
        exact listed
      exact accounted.nudge careful stepped old edited missing
        fun live => ⟨.inl ⟨rfl, rfl⟩, live⟩
    · have found : (audit.service.calls ++ [_])[index]? = some call := listed
      rw [List.getElem?_append_right (Nat.le_of_not_lt inside)] at found
      have last := List.mem_singleton.mp (List.mem_of_getElem? found)
      have waits : call.task = .opening ∨ call.task = .failed := by
        rw [last]
        dsimp only
        split
        · exact .inr rfl
        · exact .inl rfl
      rw [hasEdited_of_waiting waits] at edited
      cases edited

theorem nudged_moves {session after : Session R} (moves : Call.Moves session after)
    (live : session.deleted = false) :
    after.deleted = false ∧
      ∃ middle, Session.Nudged session middle ∧ Session.Nudged middle after ∧
        middle.currentContent = after.currentContent := by
  rcases moves with rfl | rfl | ⟨_, content, attribution, rfl⟩
  · exact ⟨live, _, .inl ⟨rfl, rfl⟩, .inl ⟨rfl, rfl⟩, rfl⟩
  · refine ⟨?_, session, .inl ⟨rfl, rfl⟩, Session.nudged_requestPersist live, ?_⟩
    · rw [Session.deleted_requestPersist]
      exact live
    · rw [Session.currentContent, Session.currentContent, (Session.requestPersist_fields _).1]
  · refine ⟨?_, session.applyContent content attribution,
      Session.nudged_applyContent live content attribution, Session.nudged_flush ?_, ?_⟩
    · rw [Session.deleted_flush, Session.deleted_applyContent]
      exact live
    · rw [Session.deleted_applyContent]
      exact live
    · rw [Session.currentContent, Session.currentContent, Session.doc_flush]

/-- A call continues: the edits under way stay so, and its own edit is put on its
way. -/
theorem Accounted.resume {place : Nat} (accounted : audit.Accounted)
    (careful : ¬ DiscardsUnsaved audit (.resume place))
    (served : ¬ LosesEdit audit.service (.resume place))
    (stepped : (serviceMachine R).step audit.service (.resume place) = some next)
    {call : Call R} (listed : call ∈ next.calls[index]?) (edited : call.hasEdited = true)
    (missing : index ∉ (audit.advance (.resume place) next).saved) :
    (audit.advance (.resume place) next).OnItsWay index call.task := by
  have continued := stepped
  simp only [serviceMachine, Service.resume] at continued
  split at continued
  · cases continued
  rename_i old found
  obtain ⟨⟨session, after⟩, resumed, rfl⟩ := Option.map_eq_some_iff.mp continued
  have resumes := Call.resumes_of_resume resumed
  by_cases own : place = index
  · subst own
    have replaced : call = after := by
      have inside := (List.getElem?_eq_some_iff.mp found).1
      have now : (audit.service.calls.set place after)[place]? = some call := listed
      rw [List.getElem?_set_self inside] at now
      exact (Option.some.inj now).symm
    subst replaced
    have waiting (waits : old.task = .opening ∨ ∃ content, old.task = .positioned content) :
        ∀ other ∈ audit.service.calls[place]?, other.hasEdited = false := by
      rw [found]
      rintro other ⟨⟩
      rcases waits with task | ⟨content, task⟩ <;> simp [Call.hasEdited, task]
    have fresh {content : JsString} {attribution : Option R.Attribution}
        (stage : Call R) (waits : old.task = .opening ∨ ∃ content, old.task = .positioned content)
        (live : audit.service.site.session.deleted = false)
        (applied : old.applies audit.service.site.session = some content)
        (sessionEq : session = (stage.edit audit.service.site.session content attribution).1)
        (callEq : call = (stage.edit audit.service.site.session content attribution).2) :
        (audit.advance (.resume place) ⟨{ audit.service.site with session := session },
          audit.service.calls.set place call⟩).OnItsWay place call.task := by
      subst sessionEq callEq
      refine onItsWay_new rfl listed edited (waiting waits) ?_ missing ?_
      · dsimp only [Call.edit]
        rw [Session.deleted_flush, Session.deleted_applyContent]
        exact live
      · intro current
        have path := congrArg Session.Binding.filePath (serviceMachine_binding stepped (by simp))
        change (stage.edit audit.service.site.session content attribution).1.filePath =
          audit.service.site.session.filePath at path
        dsimp only at current ⊢
        rw [Call.currentContent_edit] at current ⊢
        rw [path]
        refine onItsWay_edit live ?_ current
        intro loses
        exact served ⟨old, found, content, applied, loses⟩
    cases resumes with
    | read waits opened request => simp [Call.hasEdited, Call.standAt, request] at edited
    | fail waits => simp [Call.hasEdited, Call.standAt] at edited
    | stale waits opened request => simp [Call.hasEdited, Call.standAt] at edited
    | refuse waits opened request current => simp [Call.hasEdited] at edited
    | position waits opened request live => simp [Call.hasEdited, Call.standAt] at edited
    | apply waits opened request live =>
        exact fresh old (.inl waits) live (by simp [Call.applies, live, waits, request]) rfl rfl
    | applyBaseline waits opened request live current changed =>
        exact fresh _ (.inl waits) live
          (by simp [Call.applies, live, waits, request, current, changed]) rfl rfl
    | applyPositioned waits live =>
        exact fresh old (.inr ⟨_, waits⟩) live (by simp [Call.applies, live, waits]) rfl rfl
    | finish waits =>
        obtain ⟨_, _, _, _, awaits⟩ := accounted.stays careful stepped found
          (by simp [Call.hasEdited, waits]) missing
        rw [waits] at awaits
        exact awaits.elim
    | abandon waits =>
        obtain ⟨_, stays, _, live, awaits⟩ := accounted.stays careful stepped found
          (by simp [Call.hasEdited, waits]) missing
        rw [waits] at awaits
        have deferred : old.afterFailedFlush.task = .deferred := by
          unfold Call.afterFailedFlush at edited ⊢
          split at edited
          · rfl
          · simp [Call.hasEdited, Call.standAt] at edited
        refine ⟨stays, live, ?_⟩
        rw [deferred]
        exact awaits
    | flush waits flushed =>
        obtain ⟨_, stays, _, live, awaits⟩ := accounted.stays careful stepped found
          (by simp [Call.hasEdited, waits]) missing
        rw [waits] at awaits
        obtain ⟨rfl, rfl, later⟩ := awaits.flushStep flushed
        exact ⟨stays, live, later⟩
  · have same : call ∈ audit.service.calls[index]? := by
      have now : (audit.service.calls.set place after)[index]? = some call := listed
      rw [List.getElem?_set_ne own] at now
      exact now
    obtain ⟨_, stays, current, live, awaits⟩ :=
      accounted.stays careful stepped same edited missing
    obtain ⟨undeleted, middle, first, second, text⟩ := nudged_moves resumes.moves live
    exact ⟨stays, undeleted, (awaits.nudge first (text ▸ current)).nudge second current⟩

/-- A deferred acknowledgement whose edit has not been saved is not sent. -/
theorem hears_nothing {site : Site R} {sessionLabel : SessionLabel R}
    {covers : JsString → Prop} {call : Call R}
    (awaits : call.task.Awaits audit.service.site.session covers)
    (stepped : (sessionMachine R).step audit.service.site sessionLabel = some site)
    (edited : ((site.session.events.drop audit.service.site.session.events.length).foldl
      Call.hear call).hasEdited = true) :
    (site.session.events.drop audit.service.site.session.events.length).foldl Call.hear call =
      call := by
  by_cases deferred : call.task = .deferred
  · have emits : Session.Emits audit.service.site.session site.session := by
      rw [deferred] at awaits
      simp only [sessionMachine] at stepped
      cases sessionLabel with
      | update update attribution =>
          dsimp only at stepped
          split at stepped
          · cases stepped
            apply Session.Emits.none
            dsimp only [Session.applyUpdate]
            split
            · exact Session.events_handleDocumentUpdate _ attribution
            · rfl
          · cases stepped
      | edit content attribution =>
          dsimp only at stepped
          split at stepped
          · cases stepped
            apply Session.Emits.none
            dsimp only [Session.applyContent]
            split
            · rfl
            · exact Session.events_handleDocumentUpdate _ attribution
          · cases stepped
      | retry =>
          dsimp only at stepped
          split at stepped
          · cases stepped
            exact .none (Session.events_requestPersist _)
          · cases stepped
      | persist io =>
          obtain ⟨⟨session, disk⟩, moved, rfl⟩ := Option.map_eq_some_iff.mp stepped
          refine Session.emits_persistStep moved ?_
          intro content attribution task
          unfold CallTask.Awaits Session.Later at awaits
          rw [task] at awaits
          exact awaits
      | startCheck =>
          obtain ⟨session, started, rfl⟩ := Option.map_eq_some_iff.mp stepped
          unfold Session.startCheck at started
          split at started
          · split at started
            · cases started
              exact .none rfl
            · cases started
          · cases started
      | check io =>
          obtain ⟨⟨session, disk⟩, moved, rfl⟩ := Option.map_eq_some_iff.mp stepped
          exact Session.emits_checkStep moved
      | external content =>
          cases stepped
          exact .none rfl
    obtain ⟨emitted, events, none⟩ := emits
    rw [events, List.drop_left] at edited ⊢
    rcases Call.foldl_hear_of_unpersisted none with same | failed
    · exact same
    · rw [hasEdited_of_waiting (.inr failed)] at edited
      cases edited
  · exact Call.foldl_hear_of_not_deferred _ deferred

theorem covers_of_advance {content : JsString}
    (covered : (audit.advance label next).Covers index content) :
    audit.Covers index content ∨ content = next.site.session.currentContent := by
  obtain ⟨ids, entry, listed⟩ := covered
  simp only [advance, observe, List.mem_append, List.mem_singleton, Prod.mk.injEq] at entry
  rcases entry with old | ⟨now, _⟩
  · exact .inl ⟨ids, old, listed⟩
  · exact .inr now

/-- The session takes a step of its own: the edits under way stay so, or reach
the file. -/
theorem Accounted.session {sessionLabel : SessionLabel R} (accounted : audit.Accounted)
    (careful : ¬ DiscardsUnsaved audit (.session sessionLabel))
    (stepped : (serviceMachine R).step audit.service (.session sessionLabel) = some next)
    {call : Call R} (listed : call ∈ next.calls[index]?) (edited : call.hasEdited = true)
    (missing : index ∉ (audit.advance (.session sessionLabel) next).saved) :
    (audit.advance (.session sessionLabel) next).OnItsWay index call.task := by
  obtain ⟨site, moved, rfl⟩ := Option.map_eq_some_iff.mp stepped
  have heard : call ∈ (Service.hear audit.service.site.session site.session
      audit.service.calls)[index]? := listed
  rw [Service.hear_eq_map, List.getElem?_map] at heard
  obtain ⟨old, found, rfl⟩ := Option.map_eq_some_iff.mp heard
  have before : old.hasEdited = true := by
    by_cases deferred : old.task = .deferred
    · simp [Call.hasEdited, deferred]
    · rw [Call.foldl_hear_of_not_deferred _ deferred] at edited
      exact edited
  have stays := accounted.stays careful stepped found before missing
  obtain ⟨kept, live, current, undeleted, awaits⟩ := stays
  rw [hears_nothing awaits moved edited]
  have nudge (nudged : Session.Nudged audit.service.site.session site.session)
      (still : site.session.deleted = false) :
      (audit.advance (.session sessionLabel) ⟨site, Service.hear audit.service.site.session
        site.session audit.service.calls⟩).OnItsWay index old.task :=
    ⟨live, still, awaits.nudge nudged current⟩
  cases sessionLabel with
  | update update attribution =>
      simp only [sessionMachine] at moved
      split at moved
      · cases moved
        refine nudge (Session.nudged_applyUpdate undeleted update attribution) ?_
        rw [Session.deleted_applyUpdate]
        exact undeleted
      · cases moved
  | edit content attribution =>
      simp only [sessionMachine] at moved
      split at moved
      · cases moved
        refine nudge (Session.nudged_applyContent undeleted content attribution) ?_
        rw [Session.deleted_applyContent]
        exact undeleted
      · cases moved
  | retry =>
      simp only [sessionMachine] at moved
      split at moved
      · cases moved
        refine nudge (Session.nudged_requestPersist undeleted) ?_
        rw [Session.deleted_requestPersist]
        exact undeleted
      · cases moved
  | persist io =>
      simp only [Service.discards, Bool.or_eq_false_iff, bne_eq_false_iff_eq] at kept
      obtain ⟨⟨session, disk⟩, persisted, rfl⟩ := Option.map_eq_some_iff.mp moved
      have still : session.deleted = false := kept.1.trans undeleted
      have path := congrArg Session.Binding.filePath
        (Session.binding_of_frame (Session.frame_persistStep persisted))
      change session.filePath = audit.service.site.session.filePath at path
      have fresh := (saved_of_advance missing).1
      have absent : ∀ content, (audit.advance (.session (.persist io)) ⟨⟨session, disk⟩,
          Service.hear audit.service.site.session session audit.service.calls⟩).Covers index
            content →
          audit.service.site.disk.files audit.service.site.session.filePath ≠ some content := by
        intro content covered held
        have inBooks := accounted.unsaved index old found before fresh
        rcases covers_of_advance covered with known | rfl
        · exact fresh (accounted.observed index content known held)
        · refine fresh (accounted.observed index _ ⟨_, accounted.current, inBooks.1⟩ ?_)
          rw [← kept.2]
          exact held
      refine ⟨live, still, ?_⟩
      rcases awaits.persistStep (kept.2 ▸ current) undeleted still kept.2 absent persisted with
        ⟨content, covered, written⟩ | awaits
      · refine absurd ?_ ((saved_of_advance missing).2 content covered)
        rw [← path] at written
        exact written
      · exact awaits
  | startCheck =>
      obtain ⟨session, started, rfl⟩ := Option.map_eq_some_iff.mp moved
      have same : session.doc = audit.service.site.session.doc ∧
          session.deleted = audit.service.site.session.deleted := by
        unfold Session.startCheck at started
        split at started
        · split at started
          · cases started
            exact ⟨rfl, rfl⟩
          · cases started
        · cases started
      exact nudge (.inl ⟨Session.schedule_startCheck started, congrArg R.text same.1⟩)
        (same.2.trans undeleted)
  | check io =>
      simp only [Service.discards, Bool.or_eq_false_iff, bne_eq_false_iff_eq] at kept
      obtain ⟨⟨session, disk⟩, checked, rfl⟩ := Option.map_eq_some_iff.mp moved
      exact nudge (.inl ⟨Session.schedule_checkStep checked, kept.2⟩) (kept.1.trans undeleted)
  | external content =>
      cases moved
      exact nudge (.inl ⟨rfl, rfl⟩) undeleted

/-- A careful step keeps the books. -/
theorem Accounted.step {after : Audit R} (accounted : audit.Accounted)
    (careful : ¬ DiscardsUnsaved audit label) (served : ¬ LosesEdit audit.service label)
    (stepped : (auditMachine R).step audit label = some after) : after.Accounted := by
  obtain ⟨next, moved, rfl⟩ := Option.map_eq_some_iff.mp stepped
  have cold := serviceMachine_coldWaits accounted.cold moved
  refine ⟨cold, List.mem_append_right _ List.mem_cons_self, ?_, ?_⟩
  · intro index content covered held
    exact mem_saved_observe.mpr (.inr ⟨content, covered, held⟩)
  · intro index call listed edited missing
    cases label with
    | request request => exact accounted.request careful served moved listed edited missing
    | load =>
        have closed := (Service.load_cases moved).1
        have member : call ∈ next.calls := List.mem_of_getElem? listed
        have waits : call.task = .opening ∨ call.task = .failed := by
          obtain ⟨_, ⟨_, _, same⟩ | ⟨_, _, same⟩⟩ := Service.load_cases moved
          · exact accounted.cold closed call (same ▸ member)
          · rw [same] at member
            obtain ⟨old, before, rfl⟩ := List.mem_map.mp member
            unfold Call.failOpen
            split
            · exact .inr rfl
            · exact accounted.cold closed old before
        rw [hasEdited_of_waiting waits] at edited
        cases edited
    | resume place => exact accounted.resume careful served moved listed edited missing
    | session sessionLabel => exact accounted.session careful moved listed edited missing

end Audit

/-- **Acknowledged means saved.** In every run from a session without earlier
calls in which no reconcile drops an edit before it is saved and every edit is one
that a persist will carry, an edit that is acknowledged or reported as made has
been in a text of the document that the file held. -/
theorem acknowledged_saved {source : Service R} {labels : List (ServiceLabel R)}
    {target : Audit R} (unstarted : source.calls = [])
    (run : (auditMachine R).Run
      (fun audit label => ¬ DiscardsUnsaved audit label ∧ ¬ LosesEdit audit.service label)
      (Audit.start source) labels target) :
    AcknowledgedSaved target := by
  have keep : ∀ (audit : Audit R) label next,
      ¬ DiscardsUnsaved audit label ∧ ¬ LosesEdit audit.service label →
      (auditMachine R).step audit label = some next → audit.Accounted → next.Accounted :=
    fun audit label next allowed stepped accounted => accounted.step allowed.1 allowed.2 stepped
  have initial : (Audit.start source).Accounted := by
    refine ⟨?_, ?_, ?_, ?_⟩
    · simp [Service.ColdWaits, Audit.start, Audit.observe, unstarted]
    · exact List.mem_append_right _ List.mem_cons_self
    · intro index content covered held
      exact Audit.mem_saved_observe.mpr (.inr ⟨content, covered, held⟩)
    · simp [Audit.start, Audit.observe, unstarted]
  have accounted := run.invariant keep initial
  intro index call listed acknowledged
  by_contra missing
  have ended : call.hasEdited = true ∧
      (call.task = .acked ∨ ∃ content baseline, call.task = .returned content baseline) := by
    unfold Call.isAcknowledged at acknowledged
    unfold Call.hasEdited
    split at acknowledged <;> simp_all
  obtain ⟨_, _, awaits⟩ := accounted.unsaved index call listed ended.1 missing
  rcases ended.2 with task | ⟨content, baseline, task⟩
  · rw [task] at awaits
    exact awaits
  · rw [task] at awaits
    exact awaits

instance (task : PersistTask R) : Decidable (task = .settle) := by
  cases task <;> first | exact .isTrue rfl | exact .isFalse nofun

instance (session : Session R) (covers : JsString → Prop) [DecidablePred covers] :
    Decidable (session.Pending covers) := by
  unfold Session.Pending
  generalize session.persist = task
  exact task.casesOn inferInstance inferInstance (fun _ _ _ => inferInstance)
    (fun _ _ _ => inferInstance) (fun _ _ _ => inferInstance) (fun _ _ _ => inferInstance)
    (fun _ _ => inferInstance) (fun _ _ => inferInstance) inferInstance inferInstance

instance (session : Session R) (disk : Disk) (changes : Bool) :
    Decidable (session.Loses disk changes) := by
  unfold Session.Loses
  infer_instance

instance (service : Service R) (label : ServiceLabel R) : Decidable (LosesEdit service label) := by
  unfold LosesEdit
  split
  · infer_instance
  · rename_i index
    cases service.calls[index]? with
    | none => exact .isFalse (by simp)
    | some call =>
        cases applied : call.applies service.site.session with
        | none => exact .isFalse (by simp [applied])
        | some content =>
            exact decidable_of_iff (service.site.session.Loses service.site.disk
              (service.site.session.currentContent ≠ content)) (by simp [applied])
  · exact .isFalse id

instance (audit : Audit R) (label : ServiceLabel R) : Decidable (DiscardsUnsaved audit label) := by
  unfold DiscardsUnsaved
  cases (serviceMachine R).step audit.service label with
  | none => exact .isFalse (by simp)
  | some next =>
      exact decidable_of_iff (audit.service.discards next label = true ∧
        ∃ index ∈ audit.live, index ∉ audit.saved) (by simp)

namespace Replica

/-- The stages of the calls and the saved ones. -/
def books (audit : Audit replicaRuntime) : List CallTask × List Nat :=
  (audit.service.calls.map Call.task, audit.saved)

end Replica

/-- While an update waits for its persist the file is rewritten from outside; the
persist loop takes over the file, and the dropped update is acknowledged. -/
theorem discarded_update_acked :
    ∃ labels target, (auditMachine replicaRuntime).Run (fun _ _ => True)
        (Audit.start (Replica.openedService [97])) labels target ∧
      ¬ AcknowledgedSaved target := by
  obtain ⟨target, run, seen⟩ : ∃ target, (auditMachine replicaRuntime).Run (fun _ _ => True)
      (Audit.start (Replica.openedService [97]))
      ([.request (.ackedUpdate (.insert 1 1 [98]) none), .session (.external (some [120]))] ++
        List.replicate 5 (.session (.persist .ok)) ++ [.resume 0, .resume 0]) target ∧
      Replica.books target = ([.acked], []) :=
    Machine.evaluate_view (by decide +kernel)
  refine ⟨_, target, run, ?_⟩
  intro saved
  obtain ⟨tasks, none⟩ := Prod.mk.inj seen
  have first := congrArg (fun list => list[0]?) tasks
  rw [List.getElem?_map] at first
  obtain ⟨call, listed, acked⟩ := Option.map_eq_some_iff.mp first
  have kept := saved 0 call listed (by simp [Call.isAcknowledged, acked])
  rw [none] at kept
  cases kept

/-- An update of a client is persisted and acknowledged. -/
theorem acknowledged_saved_update :
    ∃ labels target, (auditMachine replicaRuntime).Run
        (fun audit label => ¬ DiscardsUnsaved audit label ∧ ¬ LosesEdit audit.service label)
        (Audit.start (Replica.openedService [97])) labels target ∧
      target.service.calls.map Call.task = [.acked] ∧ AcknowledgedSaved target := by
  obtain ⟨target, run, seen⟩ : ∃ target, (auditMachine replicaRuntime).Run
      (fun audit label => ¬ DiscardsUnsaved audit label ∧ ¬ LosesEdit audit.service label)
      (Audit.start (Replica.openedService [97]))
      ([.request (.ackedUpdate (.insert 1 1 [98]) none)] ++
        List.replicate 7 (.session (.persist .ok)) ++ [.resume 0, .resume 0]) target ∧
      target.service.calls.map Call.task = [.acked] :=
    Machine.evaluate_view (by decide +kernel)
  exact ⟨_, target, run, seen, acknowledged_saved rfl run⟩

end Kb1Daemon
