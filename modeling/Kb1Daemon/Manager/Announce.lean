import Kb1Daemon.Manager.PathMutation
import Kb1Daemon.Session.Load
import Mathlib.Data.List.Forall2

/-! # Clients are told about every reconcile

A persist or a check that finds a foreign content on disk replaces the text of the
document, writes the state sidecar and then tells the handlers: `external-merge`
when the replaced text was the one it has recorded as written, `external-change`
otherwise and when the text became empty. The books of a run list the replacements
(`Replacement`) with the text that was last materialized. What has been reported and
what the pending reconciles are going to report is one fitting event for each
(`reconciles_announced`), as long as no sidecar write of a reconcile fails and no
reconcile comes between the write of a text and its record. If the sidecar write
fails, the handlers are told nothing (`reconcile_not_announced`).
-/

namespace Kb1Daemon

/-- A text of the document that was replaced by a disk content, with the text last
materialized before. -/
structure Replacement where
  before : JsString
  after : JsString
  materialized : Option JsString
  deriving DecidableEq, Repr

namespace Replacement

/-- Unsaved edits were dropped, or a text became empty. -/
def drops (replacement : Replacement) : Bool :=
  replacement.materialized ≠ some replacement.before ||
    !replacement.before.isEmpty && replacement.after.isEmpty

/-- The kind of event for a replacement. -/
def kind (replacement : Replacement) : EventKind :=
  if replacement.drops then .externalChange else .externalMerge

end Replacement

/-- The kind is that of a reconcile's event. -/
def EventKind.external : EventKind → Bool
  | .externalMerge | .externalChange => true
  | _ => false

/-- The event tells of the replacement, and says so if it has dropped something. -/
def Replacement.Fits (replacement : Replacement) (kind : EventKind) : Prop :=
  kind.external = true ∧ (replacement.drops = true → kind = .externalChange)

/-- The report a persist is still to make. -/
def PersistTask.unreported {R : Runtime} : PersistTask R → List EventKind
  | .reconcileSnapshot _ (some event) => [event.kind]
  | _ => []

/-- The report a check is still to make. -/
def CheckTask.unreported : CheckTask → List EventKind
  | .reconcileSnapshot _ (some event) => [event.kind]
  | _ => []

namespace Session

variable {R : Runtime}

/-- The reconciles the handlers have been told of. -/
def reported (session : Session R) : List EventKind :=
  (session.events.map SessionEvent.kind).filter EventKind.external

/-- The reports made, and those the pending reconciles are still to make. -/
def announced (session : Session R) : List EventKind :=
  session.reported ++ session.persist.unreported ++ session.check.unreported

/-- The replacement by which a reconcile has turned one session into another, with
the text recorded as written. -/
def replacements (session next : Session R) : List Replacement :=
  if next.currentContent = session.currentContent then []
  else [⟨session.currentContent, next.currentContent, session.lastWrittenContent⟩]

end Session

/-- A session with the books of its replacements. -/
structure Announcing (R : Runtime) where
  state : Tenancy R
  /-- The text the session has last put into its file or taken from it. -/
  materialized : JsString
  replaced : List Replacement

/-- A persist or a check takes a step. -/
def TenancyLabel.reconciles {R : Runtime} : TenancyLabel R → Bool
  | .session (.persist _) | .session (.check _) => true
  | _ => false

namespace Tenancy

variable {R : Runtime}

/-- The disk content the session takes over in a step. -/
def takesOver (state : Tenancy R) : TenancyLabel R → Option JsString
  | .session (.persist .ok) =>
      match state.site.session.persist with
      | .compareDisk _ _ (some held) =>
          if state.site.session.lastWrittenHash.any (· ≠ R.hashContent held) then some held
          else none
      | _ => none
  | .session (.check .ok) =>
      match state.site.session.check with
      | .compareDisk (some held) =>
          if state.site.session.lastWrittenHash = some (R.hashContent held) ∨
              state.site.session.pendingWriteHash = some (R.hashContent held) then none
          else some held
      | _ => none
  | _ => none

/-- The content the session writes into its file in a step. -/
def writesContent (state : Tenancy R) : TenancyLabel R → Option JsString
  | .session (.persist io) =>
      match state.site.session.persist with
      | .writeMarkdown _ content _ => if io = .fail then none else some content
      | _ => none
  | .proceed io =>
      match state.task with
      | .writeMarkdown rebinding => if io = .fail then none else some rebinding.content
      | _ => none
  | _ => none

end Tenancy

/-- The machine of a session with the books of its replacements. -/
def announceMachine (R : Runtime) : Machine (Announcing R) (TenancyLabel R) where
  step books label :=
    ((tenancyMachine R).step books.state label).map fun next =>
      { state := next
        materialized :=
          ((books.state.takesOver label).orElse fun _ =>
            books.state.writesContent label).getD books.materialized
        replaced :=
          if label.reconciles then
            books.replaced ++
              (books.state.site.session.replacements next.site.session).map fun replacement =>
                { replacement with materialized := some books.materialized }
          else books.replaced }

/-- The sidecar write of a reconcile that has replaced the text fails. -/
def Tenancy.LosesReport {R : Runtime} (state : Tenancy R) : TenancyLabel R → Prop
  | .session (.persist io) => io ≠ .ok ∧ state.site.session.persist.unreported ≠ []
  | .session (.check io) => io ≠ .ok ∧ state.site.session.check.unreported ≠ []
  | _ => False

/-- A reconcile replaces a text that was recorded as written, while another one has
been written since without a record. -/
def Announcing.Misjudges {R : Runtime} (books : Announcing R) (label : TenancyLabel R) : Prop :=
  books.state.site.session.lastWrittenContent = some books.state.site.session.currentContent ∧
    books.materialized ≠ books.state.site.session.currentContent ∧
    (books.state.takesOver label).any (· ≠ books.state.site.session.currentContent) = true

instance Tenancy.decidableLosesReport {R : Runtime} (state : Tenancy R) (label : TenancyLabel R) :
    Decidable (state.LosesReport label) := by
  unfold Tenancy.LosesReport
  split <;> infer_instance

instance Announcing.decidableMisjudges {R : Runtime} (books : Announcing R)
    (label : TenancyLabel R) : Decidable (books.Misjudges label) := by
  unfold Announcing.Misjudges
  infer_instance

namespace Session

variable {R : Runtime}

/-- An event of another kind reports nothing. -/
theorem reported_emitEvent (session : Session R) {event : SessionEvent R}
    (other : event.kind.external = false) :
    (session.emitEvent event).reported = session.reported := by
  simp [reported, emitEvent, other]

/-- A replaced text is reported. -/
theorem reported_emitReconcile (session : Session R) (event : Option ExternalEvent) :
    (session.emitReconcile event).reported =
      session.reported ++ (event.map ExternalEvent.kind).toList := by
  cases event with
  | none => simp [emitReconcile]
  | some event =>
      cases event <;> simp [emitReconcile, emitEvent, reported, createEvent, ExternalEvent.kind,
        EventKind.external]

/-- The next session has the same text, and has announced the same. -/
def Silent (session next : Session R) : Prop :=
  next.currentContent = session.currentContent ∧ next.announced = session.announced

/-- A silent step announces what it replaces. -/
theorem Silent.perm {session next : Session R} (silent : Silent session next) :
    next.announced.Perm
      (session.announced ++ (session.replacements next).map Replacement.kind) := by
  rw [replacements, if_pos silent.1, List.map_nil, List.append_nil, silent.2]

theorem announced_captureContent {session : Session R} (idle : session.persist.unreported = []) :
    session.captureContent.announced = session.announced := by
  unfold captureContent
  split
  all_goals
    unfold announced
    rw [idle]
    rfl

theorem announced_startMaterialize {session : Session R}
    (idle : session.persist.unreported = []) :
    session.startMaterialize.announced = session.announced := by
  unfold startMaterialize
  split
  · unfold announced
    rw [idle]
    rfl
  · exact @announced_captureContent R { session with persistRequested := false } idle

theorem announced_requestPersist (session : Session R) :
    session.requestPersist.announced = session.announced := by
  unfold requestPersist
  split
  · rename_i idle
    refine @announced_startMaterialize R
      { session with persistRequested := true, loopFailure := false } ?_
    change session.persist.unreported = []
    rw [PersistTask.isIdle_iff.mp idle]
    rfl
  · rfl

theorem announced_handleDocumentUpdate (session : Session R)
    (attribution : Option R.Attribution) :
    (session.handleDocumentUpdate attribution).announced = session.announced := by
  unfold handleDocumentUpdate
  split
  · rfl
  · exact announced_requestPersist _

theorem announced_markDeleted (session : Session R) :
    session.markDeleted.announced = session.announced := by
  unfold markDeleted
  split
  · rfl
  · unfold announced
    rw [reported_emitEvent _ (by rfl)]
    rfl

theorem announced_failMaterialize {session : Session R}
    (idle : session.persist.unreported = []) :
    session.failMaterialize.announced = session.announced := by
  unfold failMaterialize markPersistFailed announced
  rw [reported_emitEvent _ (by rfl), idle]
  rfl

theorem announced_clearPendingWrite (session : Session R) (content : JsString) :
    (session.clearPendingWrite content).announced = session.announced ∧
      (session.clearPendingWrite content).persist = session.persist := by
  unfold clearPendingWrite
  split <;> exact ⟨rfl, rfl⟩

/-- Recording a written content is silent. -/
theorem silent_recordHash {session : Session R} (content : JsString)
    (attribution : Option R.Attribution) (idle : session.persist.unreported = []) :
    Silent session (session.recordHash content attribution) := by
  have recovered : ((session.recordContent content).markPersistRecovered).reported =
      session.reported ∧
      ((session.recordContent content).markPersistRecovered).check = session.check ∧
      ((session.recordContent content).markPersistRecovered).currentContent =
        session.currentContent := by
    unfold markPersistRecovered
    split
    · exact ⟨reported_emitEvent _ (by rfl), rfl, rfl⟩
    · exact ⟨rfl, rfl, rfl⟩
  have emitted := reported_emitEvent ((session.recordContent content).markPersistRecovered)
    (show ({ (session.recordContent content).markPersistRecovered.createEvent .contentPersisted with
      persistedContent := some content
      attribution := attribution } : SessionEvent R).kind.external = false from rfl)
  have cleared : ∀ middle : Session R,
      (middle.clearPendingWrite content).reported = middle.reported ∧
      (middle.clearPendingWrite content).check = middle.check ∧
      (middle.clearPendingWrite content).currentContent = middle.currentContent := by
    intro middle
    unfold clearPendingWrite
    split <;> exact ⟨rfl, rfl, rfl⟩
  obtain ⟨reports, check, text⟩ := cleared
    ((session.recordContent content).markPersistRecovered.emitEvent
      { (session.recordContent content).markPersistRecovered.createEvent .contentPersisted with
        persistedContent := some content
        attribution := attribution })
  refine ⟨text.trans recovered.2.2, ?_⟩
  unfold announced
  rw [idle]
  change Session.reported (clearPendingWrite _ content) ++ [] ++
    CheckTask.unreported (Session.check (clearPendingWrite _ content)) = _
  rw [reports, check, emitted, recovered.1]
  change _ ++ CheckTask.unreported
    ((session.recordContent content).markPersistRecovered).check = _
  rw [recovered.2.1]

/-- What a reconcile with a disk content changes: nothing but the bookkeeping if the
document has that text, and otherwise the text, with a report of the right kind still
to make. -/
theorem reconcileExternalContent_spec (session : Session R) (content : JsString) :
    ∃ reconciled event, session.reconcileExternalContent (some content) =
        (reconciled, some event) ∧
      reconciled.reported = session.reported ∧ reconciled.persist = session.persist ∧
      reconciled.check = session.check ∧
      (event.map ExternalEvent.kind).toList =
        (session.replacements reconciled).map Replacement.kind := by
  by_cases same : session.currentContent = content
  · refine ⟨session.recordContent content, none, ?_, rfl, rfl, rfl, ?_⟩
    · simp only [reconcileExternalContent, same, ↓reduceIte]
    · have text : (session.recordContent content).currentContent = session.currentContent := rfl
      rw [replacements, if_pos text]
      rfl
  · have text : (({ session with doc := R.applyDelta session.doc content } :
        Session R).recordContent content).currentContent = content := R.text_applyDelta _ content
    have replaced : session.replacements (({ session with doc := R.applyDelta session.doc content } :
        Session R).recordContent content) =
        [⟨session.currentContent, content, session.lastWrittenContent⟩] := by
      rw [replacements, text, if_neg (Ne.symm same)]
    refine ⟨({ session with doc := R.applyDelta session.doc content } :
      Session R).recordContent content, some _,
      by simp only [reconcileExternalContent, same, ↓reduceIte]; rfl, rfl, rfl, rfl, ?_⟩
    rw [replaced]
    simp only [Option.map_some, Option.toList_some, List.map_cons, List.map_nil, Replacement.kind,
      Replacement.drops]
    by_cases last : session.lastWrittenContent = some session.currentContent <;>
      by_cases truncated : (!session.currentContent.isEmpty && content.isEmpty) = true <;>
      simp [truncated, last, ExternalEvent.kind]

theorem unreported_reconcileSnapshot (snapshot : PendingSnapshot) (event : Option ExternalEvent) :
    (PersistTask.reconcileSnapshot snapshot event : PersistTask R).unreported =
        (event.map ExternalEvent.kind).toList ∧
      (CheckTask.reconcileSnapshot snapshot event).unreported =
        (event.map ExternalEvent.kind).toList := by
  cases event <;> exact ⟨rfl, rfl⟩

theorem announced_withPersist {session : Session R} {task : PersistTask R}
    (idle : session.persist.unreported = []) (quiet : task.unreported = []) :
    ({ session with persist := task } : Session R).announced = session.announced := by
  unfold announced
  rw [idle]
  change _ ++ task.unreported ++ _ = _
  rw [quiet]
  rfl

/-- A deletion leaves the task and the text. -/
theorem persist_markDeleted (session : Session R) :
    session.markDeleted.persist = session.persist ∧
      session.markDeleted.currentContent = session.currentContent := by
  unfold markDeleted
  split <;> exact ⟨rfl, rfl⟩

/-- The comparison of the loop replaces the text at most once, and is then still to
report it. -/
theorem perm_compareDisk {session : Session R} (content : JsString)
    (attribution : Option R.Attribution) (diskContent : Option JsString)
    (idle : session.persist.unreported = []) :
    (session.compareDisk content attribution diskContent).announced.Perm
      (session.announced ++ (session.replacements
        (session.compareDisk content attribution diskContent)).map Replacement.kind) := by
  unfold compareDisk
  split
  · rename_i expected _
    split
    · cases diskContent with
      | none =>
          obtain ⟨persist, text⟩ := persist_markDeleted (session.warn expected none)
          refine Silent.perm ⟨text, ?_⟩
          refine (announced_withPersist ?_ rfl).trans (announced_markDeleted _)
          exact (congrArg PersistTask.unreported persist).trans idle
      | some held =>
          obtain ⟨reconciled, event, result, reports, persist, check, kinds⟩ :=
            reconcileExternalContent_spec
              (session.warn expected ((some held).map R.hashContent)) held
          rw [result]
          change (reconciled.reported ++ PersistTask.unreported _ ++
            reconciled.check.unreported).Perm (session.reported ++ session.persist.unreported ++
              session.check.unreported ++ (Session.replacements
                (session.warn expected ((some held).map R.hashContent)) reconciled).map
                  Replacement.kind)
          rw [(unreported_reconcileSnapshot _ event).1, reports, check, kinds, idle,
            List.append_nil, List.append_assoc, List.append_assoc]
          exact List.perm_append_comm.append_left _
    · exact Silent.perm ⟨rfl, announced_withPersist idle rfl⟩
  · exact Silent.perm ⟨rfl, announced_withPersist idle rfl⟩

/-- A step of the loop keeps the account, unless it fails to report. -/
theorem perm_persistStep {session next : Session R} {disk nextDisk : Disk} {io : Io}
    (reports : ¬ (io ≠ .ok ∧ session.persist.unreported ≠ []))
    (stepped : session.persistStep disk io = some (next, nextDisk)) :
    next.announced.Perm
      (session.announced ++ (session.replacements next).map Replacement.kind) := by
  have failed : session.persist.unreported = [] → ∀ content,
      Silent session (session.clearPendingWrite content).failMaterialize := by
    intro idle content
    obtain ⟨cleared, persist⟩ := session.announced_clearPendingWrite content
    refine ⟨?_, ?_⟩
    · unfold clearPendingWrite
      split <;> rfl
    · refine (announced_failMaterialize ?_).trans cleared
      rw [persist]
      exact idle
  unfold persistStep at stepped
  split at stepped
  case h_1 => cases stepped
  case h_2 task =>
    split at stepped
    · cases stepped
    · cases stepped
      refine Silent.perm ⟨?_, announced_captureContent (by rw [task]; rfl)⟩
      unfold captureContent
      split <;> rfl
  case h_3 task =>
    cases stepped
    exact Silent.perm ⟨rfl, announced_withPersist (by rw [task]; rfl) rfl⟩
  case h_4 task =>
    cases stepped
    exact Silent.perm ⟨rfl, announced_failMaterialize (by rw [task]; rfl)⟩
  case h_5 task =>
    cases stepped
    exact perm_compareDisk _ _ _ (by rw [task]; rfl)
  case h_6 task =>
    cases stepped
    exact Silent.perm ⟨rfl, announced_withPersist (by rw [task]; rfl) rfl⟩
  case h_7 task =>
    cases stepped
    exact (failed (by rw [task]; rfl) _).perm
  case h_8 task =>
    cases stepped
    exact (failed (by rw [task]; rfl) _).perm
  case h_9 task =>
    cases stepped
    exact Silent.perm ⟨rfl, announced_withPersist (by rw [task]; rfl) rfl⟩
  case h_10 task =>
    split at stepped
    · cases stepped
      exact (failed (by rw [task]; rfl) _).perm
    · cases stepped
  case h_11 task =>
    split at stepped
    · cases stepped
      exact (failed (by rw [task]; rfl) _).perm
    · cases stepped
  case h_12 task =>
    cases stepped
    exact (silent_recordHash _ _ (by rw [task]; rfl)).perm
  case h_13 snapshot event task =>
    cases stepped
    refine Silent.perm ⟨?_, ?_⟩
    · cases event <;> rfl
    · unfold announced
      rw [task, (unreported_reconcileSnapshot snapshot event).1]
      change Session.reported (session.emitReconcile event) ++ [] ++
        (session.emitReconcile event).check.unreported = _
      rw [reported_emitReconcile, List.append_nil]
      cases event <;> rfl
  case h_14 task =>
    have quiet : session.persist.unreported = [] := by
      by_contra waiting
      exact reports ⟨nofun, waiting⟩
    split at stepped
    · cases stepped
      exact Silent.perm ⟨rfl, announced_failMaterialize quiet⟩
    · cases stepped
  case h_15 task =>
    have quiet : session.persist.unreported = [] := by
      by_contra waiting
      exact reports ⟨nofun, waiting⟩
    split at stepped
    · cases stepped
      exact Silent.perm ⟨rfl, announced_failMaterialize quiet⟩
    · cases stepped
  case h_16 task =>
    cases stepped
    unfold loopTest
    split
    · refine Silent.perm ⟨?_, announced_startMaterialize (by rw [task]; rfl)⟩
      exact congrArg R.text (doc_startMaterialize session)
    · exact Silent.perm ⟨rfl, announced_withPersist (by rw [task]; rfl) rfl⟩
  case h_17 task =>
    cases stepped
    exact Silent.perm ⟨rfl, announced_withPersist (by rw [task]; rfl) rfl⟩
  case h_18 => cases stepped

/-- A step of a check keeps the account, unless it fails to report. -/
theorem perm_checkStep {session next : Session R} {disk nextDisk : Disk} {io : Io}
    (reports : ¬ (io ≠ .ok ∧ session.check.unreported ≠ []))
    (stepped : session.checkStep disk io = some (next, nextDisk)) :
    next.announced.Perm
      (session.announced ++ (session.replacements next).map Replacement.kind) := by
  have idle : session.check.unreported = [] → ∀ task : CheckTask, task.unreported = [] →
      Silent session { session with check := task } := by
    intro quiet task silent
    refine ⟨rfl, ?_⟩
    unfold announced
    rw [quiet]
    change _ ++ task.unreported = _
    rw [silent]
    rfl
  have quiet : io ≠ .ok → session.check.unreported = [] := by
    intro failing
    by_contra waiting
    exact reports ⟨failing, waiting⟩
  unfold checkStep at stepped
  split at stepped
  case h_1 task =>
    cases stepped
    exact (idle (by rw [task]; rfl) (.compareDisk _) rfl).perm
  case h_2 task =>
    cases stepped
    exact (idle (by rw [task]; rfl) .idle rfl).perm
  case h_3 diskContent task =>
    cases stepped
    have none : session.check.unreported = [] := by
      rw [task]
      rfl
    unfold compareCheck
    cases diskContent with
    | none =>
        dsimp only
        have marked := announced_markDeleted session
        obtain ⟨_, text⟩ := persist_markDeleted session
        refine Silent.perm ⟨text, ?_⟩
        unfold announced at marked ⊢
        have check : session.markDeleted.check = session.check :=
          congrArg Frame.check (frame_markDeleted session)
        rw [check, none] at marked
        rw [none]
        exact marked
    | some content =>
        dsimp only
        split
        · exact (idle none .idle rfl).perm
        · obtain ⟨reconciled, event, result, reported, persist, _, kinds⟩ :=
            reconcileExternalContent_spec session content
          rw [result]
          change (reconciled.reported ++ reconciled.persist.unreported ++
            CheckTask.unreported _).Perm (session.reported ++ session.persist.unreported ++
              session.check.unreported ++
                (session.replacements reconciled).map Replacement.kind)
          rw [(@unreported_reconcileSnapshot R _ event).2, reported, persist, kinds, none,
            List.append_nil]
  case h_4 snapshot event task =>
    cases stepped
    have same : Session.currentContent { session.emitReconcile event with check := .idle } =
        session.currentContent := by
      cases event <;> rfl
    rw [replacements, if_pos same, List.map_nil, List.append_nil]
    unfold announced
    rw [task, (@unreported_reconcileSnapshot R snapshot event).2]
    change (Session.reported (session.emitReconcile event) ++
      (session.emitReconcile event).persist.unreported ++ []).Perm _
    have persist : (session.emitReconcile event).persist = session.persist := by
      cases event <;> rfl
    rw [reported_emitReconcile, persist, List.append_nil, List.append_assoc, List.append_assoc]
    exact List.perm_append_comm.append_left _
  case h_5 task =>
    split at stepped
    · cases stepped
      exact (idle (quiet nofun) .idle rfl).perm
    · cases stepped
  case h_6 task =>
    split at stepped
    · cases stepped
      exact (idle (quiet nofun) .idle rfl).perm
    · cases stepped
  case h_7 => cases stepped

theorem announced_flush (session : Session R) :
    session.flush.1.announced = session.announced := by
  rcases session.flush_cases with same | requested
  · rw [same]
  · rw [requested]
    exact announced_requestPersist session

theorem announced_prepareStep {session next : Session R} {task nextTask : PrepareTask}
    (stepped : session.prepareStep task = some (next, nextTask)) :
    next.announced = session.announced := by
  have flushed : ∀ session : Session R,
      session.flushForTransition.1.announced = session.announced := by
    intro session
    unfold flushForTransition
    split
    · rfl
    · exact announced_flush session
  unfold prepareStep at stepped
  split at stepped
  · split at stepped
    · split at stepped
      · cases stepped
        rfl
      · split at stepped
        · have kept := flushed session.stopWatching
          rw [Option.some.inj stepped] at kept
          exact kept
        · cases stepped
          rfl
    · cases stepped
  · split at stepped
    · have kept := flushed session
      rw [Option.some.inj stepped] at kept
      exact kept
    · cases stepped
  · cases stepped
    rfl
  · cases stepped
    split <;> rfl
  · obtain ⟨⟨result, resultTask⟩, moved, same⟩ := Option.map_eq_some_iff.mp stepped
    cases same
    rcases flushStep_cases moved with same | requested
    · rw [same]
    · rw [requested]
      exact announced_requestPersist session
  · cases stepped
  · cases stepped

theorem announced_rejectTransition (session : Session R) :
    session.rejectTransition.announced = session.announced := by
  unfold rejectTransition
  split
  · rename_i waiting
    have idle : (session.setTransition false).persist.unreported = [] := by
      change session.persist.unreported = []
      rw [waiting]
      rfl
    exact announced_failMaterialize idle
  · rfl

theorem announced_resumeWatching (session : Session R) :
    session.resumeWatching.announced = session.announced := by
  unfold resumeWatching
  split <;> rfl

/-- A path mutation replaces no text by a disk content and reports no reconcile. -/
theorem announced_mutate {session next : Session R} {disk nextDisk : Disk}
    {task nextTask : MutationTask} {io : Io}
    (stepped : session.mutate disk task io = some (next, nextDisk, nextTask)) :
    next.announced = session.announced := by
  unfold mutate at stepped
  split at stepped
  case h_4 =>
    obtain ⟨⟨result, resultTask⟩, moved, same⟩ := Option.map_eq_some_iff.mp stepped
    cases same
    exact announced_prepareStep moved
  case h_17 =>
    cases stepped
    unfold recordMove announced
    rw [reported_emitEvent _ (by rfl)]
    rfl
  case h_19 =>
    cases stepped
    exact announced_markDeleted session
  all_goals try split at stepped
  all_goals cases stepped
  all_goals first
    | rfl
    | exact announced_rejectTransition session
    | exact (announced_rejectTransition _).trans (announced_resumeWatching session)

end Session

namespace Session

variable {R : Runtime}

theorem currentContent_clearPendingWrite (session : Session R) (content : JsString) :
    (session.clearPendingWrite content).currentContent = session.currentContent := by
  unfold clearPendingWrite
  split <;> rfl

/-- The loop replaces the text only by a disk content it takes over. -/
theorem takesOver_of_persistStep {session next : Session R} {disk nextDisk : Disk} {io : Io}
    {task : MutationTask} (replaced : next.currentContent ≠ session.currentContent)
    (stepped : session.persistStep disk io = some (next, nextDisk)) :
    (Tenancy.takesOver ⟨⟨session, disk⟩, task⟩ (.session (.persist io))).any
      (· ≠ session.currentContent) = true := by
  unfold persistStep at stepped
  split at stepped
  case h_5 content attribution diskContent place =>
    cases stepped
    unfold compareDisk at replaced
    split at replaced
    · rename_i expected recorded
      split at replaced
      · rename_i other
        cases diskContent with
        | none =>
            obtain ⟨_, text⟩ := persist_markDeleted (session.warn expected none)
            exact absurd text replaced
        | some held =>
            have different : held ≠ session.currentContent := by
              rintro rfl
              apply replaced
              have same := reconcileExternalContent_same
                (session.warn expected ((some session.currentContent).map R.hashContent))
              change reconcileExternalContent _ (some session.currentContent) = _ at same
              rw [same]
              rfl
            have foreign : expected ≠ R.hashContent held := by
              rintro rfl
              exact other rfl
            simp [Tenancy.takesOver, place, recorded, foreign, different]
      · exact absurd rfl replaced
    · exact absurd rfl replaced
  case h_16 =>
    cases stepped
    refine absurd ?_ replaced
    unfold loopTest
    split
    · exact congrArg R.text (doc_startMaterialize session)
    · rfl
  all_goals try split at stepped
  all_goals cases stepped
  all_goals refine absurd ?_ replaced
  all_goals first
    | rfl
    | exact currentContent_clearPendingWrite session _
    | exact congrArg R.text (doc_recordHash session _ _)
    | (unfold captureContent; split <;> rfl)
    | (unfold emitReconcile; split <;> rfl)

/-- A check replaces the text only by a disk content it takes over. -/
theorem takesOver_of_checkStep {session next : Session R} {disk nextDisk : Disk} {io : Io}
    {task : MutationTask} (replaced : next.currentContent ≠ session.currentContent)
    (stepped : session.checkStep disk io = some (next, nextDisk)) :
    (Tenancy.takesOver ⟨⟨session, disk⟩, task⟩ (.session (.check io))).any
      (· ≠ session.currentContent) = true := by
  unfold checkStep at stepped
  split at stepped
  case h_3 diskContent place =>
    cases stepped
    unfold compareCheck at replaced
    cases diskContent with
    | none => exact absurd (persist_markDeleted session).2 replaced
    | some held =>
        dsimp only at replaced
        split at replaced
        · exact absurd rfl replaced
        · rename_i foreign
          have different : held ≠ session.currentContent := by
            rintro rfl
            apply replaced
            rw [reconcileExternalContent_same]
            rfl
          simp only [Tenancy.takesOver, place, foreign, ↓reduceIte, Option.any_some]
          simpa using different
  all_goals try split at stepped
  all_goals cases stepped
  all_goals refine absurd ?_ replaced
  all_goals first
    | rfl
    | (unfold emitReconcile; split <;> rfl)

end Session

/-- What has been announced since is a fitting event for each replacement. -/
def Announcing.Told {R : Runtime} (books : Announcing R) (before : List EventKind) : Prop :=
  ∃ kinds, List.Forall₂ Replacement.Fits books.replaced kinds ∧
    books.state.site.session.announced.Perm (before ++ kinds)

/-- The event of a replacement fits it also against the text last materialized, if no
other text has been written without a record. -/
theorem fits_replacements {R : Runtime} {books : Announcing R} {next : Session R}
    {label : TenancyLabel R} (judges : ¬ books.Misjudges label)
    (taken : next.currentContent ≠ books.state.site.session.currentContent →
      (books.state.takesOver label).any (· ≠ books.state.site.session.currentContent) = true) :
    List.Forall₂ Replacement.Fits
      ((books.state.site.session.replacements next).map fun replacement =>
        { replacement with materialized := some books.materialized })
      ((books.state.site.session.replacements next).map Replacement.kind) := by
  unfold Session.replacements
  split
  · exact .nil
  · rename_i replaced
    refine .cons ⟨?_, ?_⟩ .nil
    · unfold Replacement.kind
      split <;> rfl
    · intro drops
      have dropped : (⟨books.state.site.session.currentContent, next.currentContent,
          books.state.site.session.lastWrittenContent⟩ : Replacement).drops = true := by
        simp only [Replacement.drops, Bool.or_eq_true, decide_eq_true_eq] at drops ⊢
        refine drops.imp_left ?_
        intro unwritten recorded
        exact judges ⟨recorded, fun same => unwritten (congrArg some same), taken replaced⟩
      rw [Replacement.kind, if_pos dropped]

theorem Announcing.Told.step {R : Runtime} {books next : Announcing R} {label : TenancyLabel R}
    {before : List EventKind} (told : books.Told before)
    (reports : ¬ books.state.LosesReport label) (judges : ¬ books.Misjudges label)
    (stepped : (announceMachine R).step books label = some next) : next.Told before := by
  obtain ⟨kinds, fits, account⟩ := told
  obtain ⟨state, moved, rfl⟩ := Option.map_eq_some_iff.mp stepped
  have unchanged : ∀ {materialized : JsString},
      state.site.session.announced = books.state.site.session.announced →
      Announcing.Told ⟨state, materialized, books.replaced⟩ before := by
    intro materialized same
    refine ⟨kinds, fits, ?_⟩
    change state.site.session.announced.Perm _
    rw [same]
    exact account
  have changed : ∀ {materialized : JsString},
      state.site.session.announced.Perm (books.state.site.session.announced ++
        (books.state.site.session.replacements state.site.session).map Replacement.kind) →
      (state.site.session.currentContent ≠ books.state.site.session.currentContent →
        (books.state.takesOver label).any
          (· ≠ books.state.site.session.currentContent) = true) →
      Announcing.Told ⟨state, materialized, books.replaced ++
        (books.state.site.session.replacements state.site.session).map fun replacement =>
          { replacement with materialized := some books.materialized }⟩ before := by
    intro materialized announced taken
    refine ⟨_, List.rel_append fits (fits_replacements judges taken), ?_⟩
    rw [← List.append_assoc]
    exact announced.trans (account.append_right _)
  simp only [tenancyMachine] at moved
  cases label with
  | session label =>
      obtain ⟨site, taken, rfl⟩ := Option.map_eq_some_iff.mp moved
      simp only [sessionMachine] at taken
      cases label with
      | update update attribution =>
          dsimp only at taken
          split at taken
          · obtain rfl := Option.some.inj taken
            refine unchanged ?_
            dsimp only [Session.applyUpdate]
            split
            · exact Session.announced_handleDocumentUpdate _ attribution
            · rfl
          · cases taken
      | edit content attribution =>
          dsimp only at taken
          split at taken
          · obtain rfl := Option.some.inj taken
            refine unchanged ?_
            dsimp only [Session.applyContent]
            split
            · rfl
            · exact Session.announced_handleDocumentUpdate _ attribution
          · cases taken
      | retry =>
          dsimp only at taken
          split at taken
          · obtain rfl := Option.some.inj taken
            exact unchanged (Session.announced_requestPersist _)
          · cases taken
      | persist io =>
          obtain ⟨⟨session, disk⟩, persisted, rfl⟩ := Option.map_eq_some_iff.mp taken
          exact changed (Session.perm_persistStep reports persisted)
            fun replaced => Session.takesOver_of_persistStep replaced persisted
      | startCheck =>
          obtain ⟨session, started, rfl⟩ := Option.map_eq_some_iff.mp taken
          refine unchanged ?_
          unfold Session.startCheck at started
          split at started
          · rename_i idle
            split at started
            · obtain rfl := Option.some.inj started
              unfold Session.announced
              rw [idle]
              rfl
            · cases started
          · cases started
      | check io =>
          obtain ⟨⟨session, disk⟩, checked, rfl⟩ := Option.map_eq_some_iff.mp taken
          exact changed (Session.perm_checkStep reports checked)
            fun replaced => Session.takesOver_of_checkStep replaced checked
      | external content =>
          obtain rfl := Option.some.inj taken
          exact unchanged rfl
  | mutate mutation =>
      dsimp only at moved
      split at moved
      · split at moved
        · cases moved
        · obtain rfl := Option.some.inj moved
          exact unchanged rfl
      · cases moved
  | proceed io =>
      obtain ⟨⟨session, disk, task⟩, mutated, rfl⟩ := Option.map_eq_some_iff.mp moved
      exact unchanged (Session.announced_mutate mutated)

/-- **Every reconcile is announced.** Take any run of a session in which no sidecar
write of a reconcile fails, and no reconcile takes a text for saved that is not the
one last materialized. The external events emitted since the start, with those the
pending reconciles are going to emit, are exactly one for each replacement of the text
by a disk content, and an `external-change` where unsaved edits were dropped or a text
became empty. -/
theorem reconciles_announced {R : Runtime} {source : Tenancy R} {target : Announcing R}
    {labels : List (TenancyLabel R)} {materialized : JsString}
    (persist : source.site.session.persist.unreported = [])
    (check : source.site.session.check.unreported = [])
    (run : (announceMachine R).Run
      (fun books label => ¬ books.state.LosesReport label ∧ ¬ books.Misjudges label)
      ⟨source, materialized, []⟩ labels target) :
    ∃ kinds, List.Forall₂ Replacement.Fits target.replaced kinds ∧
      (target.state.site.session.reported ++ target.state.site.session.persist.unreported ++
        target.state.site.session.check.unreported).Perm
        (source.site.session.reported ++ kinds) := by
  have start : Announcing.Told ⟨source, materialized, []⟩ source.site.session.reported := by
    refine ⟨[], .nil, ?_⟩
    unfold Session.announced
    rw [persist, check]
    simp
  have keep : ∀ (books : Announcing R) label next,
      ¬ books.state.LosesReport label ∧ ¬ books.Misjudges label →
      (announceMachine R).step books label = some next →
      books.Told source.site.session.reported → next.Told source.site.session.reported :=
    fun _ _ _ allowed stepped told => told.step allowed.1 allowed.2 stepped
  have final := run.invariant keep start
  exact final

/-- The note `n.md` with its sidecar, opened on a content, with empty books. -/
def Replica.announcing (content : JsString) : Announcing replicaRuntime :=
  ⟨⟨openedSite content, .idle⟩, content, []⟩

/-- A check takes over a content written from outside; the write of the sidecar fails,
and the handlers are never told that the text was replaced. -/
theorem reconcile_not_announced :
    ∃ (labels : List (TenancyLabel replicaRuntime)) (target : Announcing replicaRuntime),
      (announceMachine replicaRuntime).Run (fun _ _ => True) (Replica.announcing [97]) labels
        target ∧
      target.replaced = [⟨[97], [120], some [97]⟩] ∧
      target.state.site.session.reported = [] ∧
      target.state.site.session.persist.unreported = [] ∧
      target.state.site.session.check.unreported = [] := by
  exact ⟨[.session (.external (some [120])), .session .startCheck, .session (.check .ok),
    .session (.check .ok), .session (.check .fail)], _, Machine.evaluate_sound rfl, by decide,
    by decide, rfl, rfl⟩

/-- A client has typed before a content comes from outside: the replacement is
announced as an `external-change`. -/
theorem reconciles_announced_change :
    ∃ target, (announceMachine replicaRuntime).Run
        (fun books label => ¬ books.state.LosesReport label ∧ ¬ books.Misjudges label)
        (Replica.announcing [97])
        [.session (.update (.insert 1 1 [98]) none), .session (.external (some [120])),
          .session .startCheck, .session (.check .ok), .session (.check .ok),
          .session (.check .ok)] target ∧
      target.state.site.session.reported = [.externalChange] ∧
      ∃ kinds, List.Forall₂ Replacement.Fits target.replaced kinds ∧
        (target.state.site.session.reported ++ target.state.site.session.persist.unreported ++
          target.state.site.session.check.unreported).Perm
          ((Replica.openedSite [97]).session.reported ++ kinds) := by
  have run : (announceMachine replicaRuntime).Run
      (fun books label => ¬ books.state.LosesReport label ∧ ¬ books.Misjudges label)
      (Replica.announcing [97])
      [.session (.update (.insert 1 1 [98]) none), .session (.external (some [120])),
        .session .startCheck, .session (.check .ok), .session (.check .ok),
        .session (.check .ok)] _ := Machine.evaluate_sound rfl
  exact ⟨_, run, by decide, reconciles_announced rfl rfl run⟩

end Kb1Daemon
