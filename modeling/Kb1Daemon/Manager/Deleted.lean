import Kb1Daemon.Manager.PathMutation
import Kb1Daemon.Session.Load

/-! # Deleted stays deleted

A session is marked deleted by an external check or a persist that finds its file
missing, or by a call of `deleteWith`. From then on it must not write. But
`materialize` tests the mark once, before its read, and a check does not test it
at all: one that has found a file when the mark is set still writes
(`deleted_file_written_again`). When none has, and none that is still to read finds
a file put back from outside, a deleted session writes nothing and reports nothing
as persisted (`deleted_stays_deleted`).
-/

namespace Kb1Daemon

namespace Session

variable {R : Runtime}

/-- The persist loop has found the file and is still to write. -/
def persistWrites (session : Session R) : Bool :=
  match session.persist with
  | .idle | .awaitTransition | .readMarkdown _ _ _ | .loopTest | .settle => false
  | .compareDisk _ _ diskContent => diskContent.isSome
  | .writeMarkdown _ _ _ | .writeSnapshot _ _ _ | .recordHash _ _ | .reconcileSnapshot _ _ => true

/-- The content is one the session has recorded, or is writing. -/
def knows (session : Session R) (content : JsString) : Bool :=
  session.lastWrittenHash = some (R.hashContent content) ||
    session.pendingWriteHash = some (R.hashContent content)

/-- An external check has found a content it is still to take over. -/
def checkWrites (session : Session R) : Bool :=
  match session.check with
  | .idle | .readMarkdown _ => false
  | .compareDisk diskContent => diskContent.any fun content => !session.knows content
  | .reconcileSnapshot _ _ => true

end Session

/-- A move is past its preparation. -/
def MutationTask.moves : MutationTask → Bool
  | .onDisk (.moveTo _ _) | .settled (.moveTo _ _) _ | .writeMarkdown _ | .writeSnapshot _ _
  | .removeState _ => true
  | .idle | .preparing _ _ | .onDisk .deleteWith | .settled .deleteWith _ | .deleteState
  | .release => false

/-- Something outside the session rewrites the file. -/
def TenancyLabel.outside {R : Runtime} : TenancyLabel R → Bool
  | .session (.external _) => true
  | _ => false

namespace Tenancy

variable {R : Runtime}

/-- The step marks the session deleted, unless it is. -/
def marks (state : Tenancy R) : TenancyLabel R → Bool
  | .session (.persist .ok) =>
      match state.site.session.persist with
      | .compareDisk _ _ none => true
      | _ => false
  | .session (.check .ok) =>
      match state.site.session.check with
      | .compareDisk none => true
      | _ => false
  | .proceed .ok =>
      match state.task with
      | .deleteState => true
      | _ => false
  | _ => false

/-- Something that has begun is still to write. -/
def writes (state : Tenancy R) : Bool :=
  state.site.session.persistWrites || state.site.session.checkWrites || state.task.moves

/-- The step is a read that finds a file it will act upon. -/
def finds (state : Tenancy R) : TenancyLabel R → Bool
  | .session (.persist .ok) =>
      match state.site.session.persist with
      | .readMarkdown path _ _ => (state.site.disk.files path).isSome
      | _ => false
  | .session (.check .ok) =>
      match state.site.session.check with
      | .readMarkdown path =>
          (state.site.disk.files path).any fun content => !state.site.session.knows content
      | _ => false
  | _ => false

/-- The session is marked deleted while something is still to write, or a read of a
deleted session finds a file. -/
def Outlives (state : Tenancy R) (label : TenancyLabel R) : Prop :=
  if state.site.session.deleted then state.finds label = true
  else state.marks label = true ∧ state.writes = true

instance decidableOutlives (state : Tenancy R) (label : TenancyLabel R) :
    Decidable (state.Outlives label) := by
  unfold Outlives
  infer_instance

/-- The step creates and writes no file, and reports nothing as persisted. -/
structure WritesNothing (state next : Tenancy R) (label : TenancyLabel R) : Prop where
  files : label.outside = false → ∀ path,
    next.site.disk.files path = state.site.disk.files path ∨ next.site.disk.files path = none
  sidecars : ∀ path, next.site.disk.sidecars path = state.site.disk.sidecars path ∨
    next.site.disk.sidecars path = none
  events : ∃ emitted, next.site.session.events = state.site.session.events ++ emitted ∧
    ∀ event ∈ emitted, event.kind ≠ .contentPersisted
  deleted : next.site.session.deleted = true

end Tenancy

namespace Session

variable {R : Runtime}

/-- A deleted session that has nothing left to write. -/
structure Dormant (session : Session R) : Prop where
  deleted : session.deleted = true
  hash : session.lastWrittenHash.isSome = true
  watching : session.watching = false
  persist : session.persistWrites = false
  check : session.checkWrites = false

/-- The session is dormant after a step, and has not reported a content. -/
structure Rests (session next : Session R) : Prop where
  dormant : next.Dormant
  events : ∃ emitted, next.events = session.events ++ emitted ∧
    ∀ event ∈ emitted, event.kind ≠ .contentPersisted

/-- A dormant session that has told nothing new rests. -/
theorem Rests.of_events {session next : Session R} (dormant : next.Dormant)
    (same : next.events = session.events) : Rests session next :=
  ⟨dormant, [], by rw [same, List.append_nil], nofun⟩

/-- A dormant session is not marked again. -/
theorem Dormant.markDeleted {session : Session R} (dormant : session.Dormant) :
    session.markDeleted = session := by
  rw [Session.markDeleted, if_pos dormant.deleted]

/-- A dormant session captures nothing. -/
theorem Dormant.captureContent {session : Session R} (dormant : session.Dormant) :
    session.captureContent = { session with persist := .loopTest } := by
  rw [Session.captureContent, if_pos dormant.deleted]

/-- The loop of a dormant session ends its materialization at the test. -/
theorem Dormant.startMaterialize {session : Session R} (dormant : session.Dormant) :
    Rests session session.startMaterialize := by
  unfold Session.startMaterialize
  split
  · exact .of_events ⟨dormant.deleted, dormant.hash, dormant.watching, rfl, dormant.check⟩ rfl
  · have cleared : ({ session with persistRequested := false } : Session R).Dormant :=
      ⟨dormant.deleted, dormant.hash, dormant.watching, dormant.persist, dormant.check⟩
    rw [cleared.captureContent]
    exact .of_events ⟨dormant.deleted, dormant.hash, dormant.watching, rfl, dormant.check⟩ rfl

theorem Dormant.requestPersist {session : Session R} (dormant : session.Dormant) :
    Rests session session.requestPersist := by
  unfold Session.requestPersist
  split
  · have requested : ({ session with persistRequested := true, loopFailure := false } :
        Session R).Dormant :=
      ⟨dormant.deleted, dormant.hash, dormant.watching, dormant.persist, dormant.check⟩
    obtain ⟨rests, events⟩ := requested.startMaterialize
    exact ⟨rests, events⟩
  · exact .of_events
      ⟨dormant.deleted, dormant.hash, dormant.watching, dormant.persist, dormant.check⟩ rfl

/-- A failed save leaves a dormant session at rest. -/
theorem Dormant.failMaterialize {session : Session R} (dormant : session.Dormant) :
    Rests session session.failMaterialize := by
  refine ⟨⟨dormant.deleted, dormant.hash, dormant.watching, rfl, dormant.check⟩, _, rfl, ?_⟩
  intro event emitted
  rw [List.mem_singleton.mp emitted]
  exact nofun

/-- A path transition wakes no dormant session. -/
theorem Dormant.setTransition {session : Session R} (dormant : session.Dormant)
    (installed : Bool) : (session.setTransition installed).Dormant :=
  ⟨dormant.deleted, dormant.hash, dormant.watching, dormant.persist, dormant.check⟩

theorem Dormant.rejectTransition {session : Session R} (dormant : session.Dormant) :
    Rests session session.rejectTransition := by
  unfold Session.rejectTransition
  split
  · obtain ⟨rests, emitted⟩ := (dormant.setTransition false).failMaterialize
    exact ⟨rests, emitted⟩
  · exact .of_events (dormant.setTransition false) rfl

/-- A dormant session does not watch again. -/
theorem Dormant.resumeWatching {session : Session R} (dormant : session.Dormant) :
    session.resumeWatching = session := by
  rw [Session.resumeWatching, if_pos dormant.deleted]

/-- A persist that finds the file missing leaves a dormant session at the loop's
test. -/
theorem Dormant.compareDisk {session : Session R} (dormant : session.Dormant) (content : JsString)
    (attribution : Option R.Attribution) :
    Rests session (session.compareDisk content attribution none) := by
  obtain ⟨expected, recorded⟩ := Option.isSome_iff_exists.mp dormant.hash
  have warned : (session.warn expected none).Dormant :=
    ⟨dormant.deleted, dormant.hash, dormant.watching, dormant.persist, dormant.check⟩
  simp only [Session.compareDisk, recorded, Option.map_none, ne_eq, reduceCtorEq, not_false_eq_true,
    ↓reduceIte, reconcileExternalContent]
  rw [warned.markDeleted]
  exact .of_events ⟨dormant.deleted, dormant.hash, dormant.watching, rfl, dormant.check⟩ rfl

theorem Dormant.persistStep {session next : Session R} {disk nextDisk : Disk} {io : Io}
    (dormant : session.Dormant)
    (missing : ∀ path content attribution, session.persist = .readMarkdown path content attribution →
      io = .ok → disk.files path = none)
    (stepped : session.persistStep disk io = some (next, nextDisk)) :
    Rests session next ∧ nextDisk = disk := by
  have persist := dormant.persist
  unfold persistWrites at persist
  unfold Session.persistStep at stepped
  split at stepped
  case h_1 => cases stepped
  case h_2 =>
    split at stepped
    · cases stepped
    · cases stepped
      rw [dormant.captureContent]
      exact ⟨.of_events ⟨dormant.deleted, dormant.hash, dormant.watching, rfl, dormant.check⟩ rfl,
        rfl⟩
  case h_3 path content attribution task =>
    cases stepped
    refine ⟨.of_events ⟨dormant.deleted, dormant.hash, dormant.watching, ?_, dormant.check⟩ rfl,
      rfl⟩
    simp [persistWrites, missing path content attribution task rfl]
  case h_4 =>
    cases stepped
    exact ⟨dormant.failMaterialize, rfl⟩
  case h_5 content attribution diskContent task =>
    cases stepped
    rw [task] at persist
    obtain rfl : diskContent = none := by simpa using persist
    exact ⟨dormant.compareDisk content attribution, rfl⟩
  case h_16 =>
    cases stepped
    unfold Session.loopTest
    split
    · exact ⟨dormant.startMaterialize, rfl⟩
    · exact ⟨.of_events ⟨dormant.deleted, dormant.hash, dormant.watching, rfl, dormant.check⟩ rfl,
        rfl⟩
  case h_17 =>
    cases stepped
    exact ⟨.of_events ⟨dormant.deleted, dormant.hash, dormant.watching, rfl, dormant.check⟩ rfl,
      rfl⟩
  case h_18 => cases stepped
  all_goals simp_all

/-- A disk check of a dormant session writes nothing. -/
theorem Dormant.checkStep {session next : Session R} {disk nextDisk : Disk} {io : Io}
    (dormant : session.Dormant)
    (missing : ∀ path, session.check = .readMarkdown path → io = .ok →
      (disk.files path).any (fun content => !session.knows content) = false)
    (stepped : session.checkStep disk io = some (next, nextDisk)) :
    Rests session next ∧ nextDisk = disk := by
  have check := dormant.check
  unfold checkWrites at check
  have idle : Rests session { session with check := .idle } :=
    .of_events ⟨dormant.deleted, dormant.hash, dormant.watching, dormant.persist, rfl⟩ rfl
  unfold Session.checkStep at stepped
  split at stepped
  case h_1 path task =>
    cases stepped
    exact ⟨.of_events
      ⟨dormant.deleted, dormant.hash, dormant.watching, dormant.persist, missing path task rfl⟩ rfl,
      rfl⟩
  case h_2 =>
    cases stepped
    exact ⟨idle, rfl⟩
  case h_3 diskContent task =>
    cases stepped
    refine ⟨?_, rfl⟩
    cases diskContent with
    | none =>
        simp only [Session.compareCheck]
        rw [dormant.markDeleted]
        exact idle
    | some content =>
        rw [task] at check
        have known : session.lastWrittenHash = some (R.hashContent content) ∨
            session.pendingWriteHash = some (R.hashContent content) := by
          simpa [knows, or_iff_not_imp_left] using check
        simp only [Session.compareCheck]
        rw [if_pos known]
        exact idle
  case h_7 => cases stepped
  all_goals simp_all

/-- Preparing a move leaves a dormant session at rest. -/
theorem Dormant.prepareStep {session next : Session R} {task nextTask : PrepareTask}
    (dormant : session.Dormant) (stepped : session.prepareStep task = some (next, nextTask)) :
    Rests session next := by
  have still : Rests session session := .of_events dormant rfl
  have flushed : ∀ session : Session R, session.Dormant →
      session.flushForTransition = (session, .failed) := by
    intro session dormant
    rw [flushForTransition, if_pos dormant.deleted]
  unfold Session.prepareStep at stepped
  split at stepped
  · split at stepped
    · rw [if_pos dormant.deleted] at stepped
      cases stepped
      exact still
    · cases stepped
  · split at stepped
    · rw [flushed session dormant] at stepped
      cases stepped
      exact still
    · cases stepped
  · cases stepped
    exact still
  · rw [if_pos dormant.deleted] at stepped
    cases stepped
    exact still
  · obtain ⟨⟨result, resultTask⟩, moved, same⟩ := Option.map_eq_some_iff.mp stepped
    cases same
    rcases flushStep_cases moved with same | requested
    · rw [same]
      exact still
    · rw [requested]
      exact dormant.requestPersist
  · cases stepped
  · cases stepped

/-- A session that is not deleted and knows what its file holds. -/
structure Living (session : Session R) : Prop where
  live : session.deleted = false
  hash : session.lastWrittenHash.isSome = true

theorem Living.startMaterialize {session : Session R} (living : session.Living) :
    session.startMaterialize.Living := by
  rcases startMaterialize_cases living.live with same | same
  · rw [same]
    exact ⟨living.live, living.hash⟩
  · rw [same]
    exact ⟨living.live, living.hash⟩

theorem Living.requestPersist {session : Session R} (living : session.Living) :
    session.requestPersist.Living := by
  unfold Session.requestPersist
  split
  · have requested : ({ session with persistRequested := true, loopFailure := false } :
        Session R).Living := ⟨living.live, living.hash⟩
    exact requested.startMaterialize
  · exact ⟨living.live, living.hash⟩

theorem Living.handleDocumentUpdate {session : Session R} (living : session.Living) (doc : R.Doc)
    (attribution : Option R.Attribution) :
    ({ session with doc := doc }.handleDocumentUpdate attribution).Living := by
  rw [Session.handleDocumentUpdate, if_neg (by simp [living.live])]
  have attributed : ({ session with doc := doc, pendingPersistAttribution := attribution } :
      Session R).Living := ⟨living.live, living.hash⟩
  exact attributed.requestPersist

theorem Living.applyUpdate {session : Session R} (living : session.Living) (update : R.Update)
    (attribution : Option R.Attribution) : (session.applyUpdate update attribution).Living := by
  unfold Session.applyUpdate
  split
  · exact living.handleDocumentUpdate _ attribution
  · exact ⟨living.live, living.hash⟩

theorem Living.applyContent {session : Session R} (living : session.Living) (content : JsString)
    (attribution : Option R.Attribution) : (session.applyContent content attribution).Living := by
  unfold Session.applyContent
  split
  · exact living
  · exact living.handleDocumentUpdate _ attribution

theorem Living.failMaterialize {session : Session R} (living : session.Living) :
    session.failMaterialize.Living := ⟨living.live, living.hash⟩

theorem Living.clearPendingWrite {session : Session R} (living : session.Living)
    (content : JsString) : (session.clearPendingWrite content).Living := by
  unfold Session.clearPendingWrite
  split
  · exact ⟨living.live, living.hash⟩
  · exact living

theorem Living.emitReconcile {session : Session R} (living : session.Living)
    (event : Option ExternalEvent) : (session.emitReconcile event).Living := by
  cases event <;> exact ⟨living.live, living.hash⟩

/-- A reconcile with a content on disk leaves the session alive. -/
theorem Living.reconcileExternalContent {session : Session R} (living : session.Living)
    (content : JsString) : (session.reconcileExternalContent (some content)).1.Living := by
  dsimp only [Session.reconcileExternalContent]
  split <;> exact ⟨living.live, rfl⟩

theorem Living.compareDisk {session : Session R} (living : session.Living) (content held : JsString)
    (attribution : Option R.Attribution) :
    (session.compareDisk content attribution (some held)).Living := by
  unfold Session.compareDisk
  split
  · rename_i expected _
    split
    · have warned : (session.warn expected ((some held).map R.hashContent)).Living :=
        ⟨living.live, living.hash⟩
      have reconciled := warned.reconcileExternalContent held
      split
      all_goals
        rename_i same
        rw [same] at reconciled
        exact ⟨reconciled.live, reconciled.hash⟩
    · exact ⟨living.live, living.hash⟩
  · exact ⟨living.live, living.hash⟩

theorem Living.recordHash {session : Session R} (living : session.Living) (content : JsString)
    (attribution : Option R.Attribution) : (session.recordHash content attribution).Living := by
  have recovered : ((session.recordContent content).markPersistRecovered).Living := by
    unfold markPersistRecovered
    split <;> exact ⟨living.live, rfl⟩
  have emitted : ((session.recordContent content).markPersistRecovered.emitEvent
      { (session.recordContent content).markPersistRecovered.createEvent .contentPersisted with
        persistedContent := some content
        attribution := attribution }).Living := ⟨recovered.live, recovered.hash⟩
  have cleared := emitted.clearPendingWrite content
  exact ⟨cleared.live, cleared.hash⟩

/-- A step of the loop leaves the session alive, or has found the file missing. -/
theorem Living.persistStep {session next : Session R} {disk nextDisk : Disk} {io : Io}
    (living : session.Living) (stepped : session.persistStep disk io = some (next, nextDisk)) :
    next.Living ∨ ∃ content attribution, session.persist = .compareDisk content attribution none ∧
      io = .ok ∧ next = session.compareDisk content attribution none := by
  unfold Session.persistStep at stepped
  split at stepped
  case h_5 content attribution diskContent task =>
    cases stepped
    cases diskContent with
    | none => exact .inr ⟨content, attribution, task, rfl, rfl⟩
    | some held => exact .inl (living.compareDisk content held attribution)
  case h_16 =>
    cases stepped
    left
    unfold Session.loopTest
    split
    · exact living.startMaterialize
    · exact ⟨living.live, living.hash⟩
  all_goals try split at stepped
  all_goals cases stepped
  all_goals left
  all_goals first
    | exact living.recordHash _ _
    | exact (living.clearPendingWrite _).failMaterialize
    | exact ⟨(living.emitReconcile _).live, (living.emitReconcile _).hash⟩
    | exact ⟨living.live, living.hash⟩
    | (rw [captureContent, if_neg (by simp [living.live])]; exact ⟨living.live, living.hash⟩)

/-- A step of a check leaves the session alive, or has found the file missing. -/
theorem Living.checkStep {session next : Session R} {disk nextDisk : Disk} {io : Io}
    (living : session.Living) (stepped : session.checkStep disk io = some (next, nextDisk)) :
    next.Living ∨ session.check = .compareDisk none ∧ io = .ok ∧
      next = { session.markDeleted with check := .idle } := by
  unfold Session.checkStep at stepped
  split at stepped
  case h_3 diskContent task =>
    cases stepped
    cases diskContent with
    | none => exact .inr ⟨task, rfl, rfl⟩
    | some content =>
        left
        dsimp only [Session.compareCheck]
        split
        · exact ⟨living.live, living.hash⟩
        · have reconciled := living.reconcileExternalContent content
          split
          all_goals
            rename_i same
            rw [same] at reconciled
            exact ⟨reconciled.live, reconciled.hash⟩
  all_goals try split at stepped
  all_goals cases stepped
  all_goals left
  all_goals first
    | exact ⟨(living.emitReconcile _).live, (living.emitReconcile _).hash⟩
    | exact ⟨living.live, living.hash⟩

theorem Living.rejectTransition {session : Session R} (living : session.Living) :
    session.rejectTransition.Living := by
  unfold Session.rejectTransition
  split <;> exact ⟨living.live, living.hash⟩

theorem Living.resumeWatching {session : Session R} (living : session.Living) :
    session.resumeWatching.Living := by
  unfold Session.resumeWatching
  split <;> exact ⟨living.live, living.hash⟩

theorem Living.flush {session : Session R} (living : session.Living) :
    session.flush.1.Living := by
  rcases session.flush_cases with same | requested
  · rw [same]
    exact living
  · rw [requested]
    exact living.requestPersist

theorem Living.prepareStep {session next : Session R} {task nextTask : PrepareTask}
    (living : session.Living) (stepped : session.prepareStep task = some (next, nextTask)) :
    next.Living := by
  have flushed : ∀ session : Session R, session.Living → session.flushForTransition.1.Living := by
    intro session living
    rw [flushForTransition, if_neg (by simp [living.live])]
    exact living.flush
  have stopped : session.stopWatching.Living := ⟨living.live, living.hash⟩
  unfold Session.prepareStep at stepped
  split at stepped
  · split at stepped
    · rw [if_neg (by simp [living.live])] at stepped
      split at stepped
      · have kept := flushed _ stopped
        rw [Option.some.inj stepped] at kept
        exact kept
      · cases stepped
        exact stopped
    · cases stepped
  · split at stepped
    · have kept := flushed _ living
      rw [Option.some.inj stepped] at kept
      exact kept
    · cases stepped
  · cases stepped
    exact living
  · cases stepped
    split
    · exact living
    · exact ⟨living.live, living.hash⟩
  · obtain ⟨⟨result, resultTask⟩, moved, same⟩ := Option.map_eq_some_iff.mp stepped
    cases same
    rcases flushStep_cases moved with same | requested
    · rw [same]
      exact living
    · rw [requested]
      exact living.requestPersist
  · cases stepped
  · cases stepped

/-- A step of a path mutation leaves the session alive, or marks it deleted. -/
theorem Living.mutate {session next : Session R} {disk nextDisk : Disk}
    {task nextTask : MutationTask} {io : Io} (living : session.Living)
    (stepped : session.mutate disk task io = some (next, nextDisk, nextTask)) :
    next.Living ∨ task = .deleteState ∧ io = .ok ∧ next = session.markDeleted ∧
      nextTask = .release := by
  unfold Session.mutate at stepped
  split at stepped
  case h_4 =>
    obtain ⟨⟨result, resultTask⟩, moved, same⟩ := Option.map_eq_some_iff.mp stepped
    cases same
    exact .inl (living.prepareStep moved)
  all_goals try split at stepped
  all_goals cases stepped
  all_goals first
    | exact .inr ⟨rfl, rfl, rfl, rfl⟩
    | left
  all_goals first
    | exact living
    | exact ⟨living.live, living.hash⟩
    | exact living.rejectTransition
    | exact living.resumeWatching.rejectTransition
    | exact ⟨living.live, rfl⟩

/-- Marking a session deleted makes it dormant if nothing is still to write. -/
theorem Living.markDeleted {session : Session R} (living : session.Living)
    (persist : session.persistWrites = false) (check : session.checkWrites = false) :
    session.markDeleted.Dormant := by
  rw [Session.markDeleted, if_neg (by simp [living.live])]
  exact ⟨rfl, living.hash, rfl, persist, check⟩

theorem Living.compareDisk_none {session : Session R} (living : session.Living)
    (content : JsString) (attribution : Option R.Attribution)
    (check : session.checkWrites = false) :
    (session.compareDisk content attribution none).Dormant := by
  obtain ⟨expected, recorded⟩ := Option.isSome_iff_exists.mp living.hash
  simp only [Session.compareDisk, recorded, Option.map_none, ne_eq, reduceCtorEq, not_false_eq_true,
    ↓reduceIte, Session.reconcileExternalContent]
  rw [Session.markDeleted, if_neg (by simp [Session.warn, living.live])]
  exact ⟨rfl, living.hash, rfl, rfl, check⟩

end Session

namespace Tenancy

variable {R : Runtime}

/-- A deleted session is dormant, and no move is under way. -/
structure Laid (state : Tenancy R) : Prop where
  living : state.site.session.deleted = false → state.site.session.Living
  dormant : state.site.session.deleted = true → state.site.session.Dormant
  still : state.site.session.deleted = true → state.task.moves = false

/-- Nothing is at stake while the session lives. -/
theorem Laid.of_living {state : Tenancy R} (living : state.site.session.Living) : state.Laid where
  living _ := living
  dormant deleted := by simp [living.live] at deleted
  still deleted := by simp [living.live] at deleted

theorem Laid.of_dormant {state : Tenancy R} (dormant : state.site.session.Dormant)
    (still : state.task.moves = false) : state.Laid where
  living live := by simp [dormant.deleted] at live
  dormant _ := dormant
  still _ := still

/-- While the session is not deleted a step keeps it alive, or marks it deleted with
nothing left to write. -/
theorem laid_step_of_living {state next : Tenancy R} {label : TenancyLabel R}
    (living : state.site.session.Living) (allowed : ¬ state.Outlives label)
    (stepped : (tenancyMachine R).step state label = some next) : next.Laid := by
  have quiet : state.marks label = true → state.site.session.persistWrites = false ∧
      state.site.session.checkWrites = false ∧ state.task.moves = false := by
    intro marked
    simp only [Outlives, living.live, Bool.false_eq_true, ↓reduceIte, marked, true_and,
      Bool.not_eq_true] at allowed
    simpa [writes, and_assoc] using allowed
  simp only [tenancyMachine] at stepped
  cases label with
  | session label =>
      obtain ⟨site, moved, rfl⟩ := Option.map_eq_some_iff.mp stepped
      simp only [sessionMachine] at moved
      cases label with
      | update update attribution =>
          dsimp only at moved
          split at moved
          · obtain rfl := Option.some.inj moved
            exact .of_living (living.applyUpdate update attribution)
          · cases moved
      | edit content attribution =>
          dsimp only at moved
          split at moved
          · obtain rfl := Option.some.inj moved
            exact .of_living (living.applyContent content attribution)
          · cases moved
      | retry =>
          dsimp only at moved
          split at moved
          · obtain rfl := Option.some.inj moved
            exact .of_living living.requestPersist
          · cases moved
      | persist io =>
          obtain ⟨⟨session, disk⟩, persisted, rfl⟩ := Option.map_eq_some_iff.mp moved
          rcases living.persistStep persisted with kept | ⟨content, attribution, task, rfl, rfl⟩
          · exact .of_living kept
          · obtain ⟨_, check, still⟩ := quiet (by simp [marks, task])
            exact .of_dormant (living.compareDisk_none content attribution check) still
      | startCheck =>
          obtain ⟨session, started, rfl⟩ := Option.map_eq_some_iff.mp moved
          unfold Session.startCheck at started
          split at started
          · split at started
            · obtain rfl := Option.some.inj started
              exact .of_living ⟨living.live, living.hash⟩
            · cases started
          · cases started
      | check io =>
          obtain ⟨⟨session, disk⟩, checked, rfl⟩ := Option.map_eq_some_iff.mp moved
          rcases living.checkStep checked with kept | ⟨task, rfl, rfl⟩
          · exact .of_living kept
          · obtain ⟨persist, check, still⟩ := quiet (by simp [marks, task])
            have dormant := living.markDeleted persist check
            exact .of_dormant
              ⟨dormant.deleted, dormant.hash, dormant.watching, dormant.persist, rfl⟩ still
      | external content =>
          obtain rfl := Option.some.inj moved
          exact .of_living living
  | mutate mutation =>
      dsimp only at stepped
      split at stepped
      · split at stepped
        · cases stepped
        · obtain rfl := Option.some.inj stepped
          exact .of_living living
      · cases stepped
  | proceed io =>
      obtain ⟨⟨session, disk, task⟩, moved, rfl⟩ := Option.map_eq_some_iff.mp stepped
      rcases living.mutate moved with kept | ⟨place, rfl, rfl, rfl⟩
      · exact .of_living kept
      · obtain ⟨persist, check, _⟩ := quiet (by simp [marks, place])
        exact .of_dormant (living.markDeleted persist check) rfl

theorem writesNothing_of_rests {state next : Tenancy R} {label : TenancyLabel R}
    (rests : Session.Rests state.site.session next.site.session)
    (files : label.outside = false → ∀ path,
      next.site.disk.files path = state.site.disk.files path ∨ next.site.disk.files path = none)
    (sidecars : ∀ path, next.site.disk.sidecars path = state.site.disk.sidecars path ∨
      next.site.disk.sidecars path = none) : WritesNothing state next label :=
  ⟨files, sidecars, rests.events, rests.dormant.deleted⟩

/-- A step of a path mutation on a dormant session only removes files. -/
theorem dormant_mutate {session next : Session R} {disk nextDisk : Disk}
    {task nextTask : MutationTask} {io : Io} (dormant : session.Dormant)
    (still : task.moves = false)
    (stepped : session.mutate disk task io = some (next, nextDisk, nextTask)) :
    Session.Rests session next ∧ nextTask.moves = false ∧
      (∀ path, nextDisk.files path = disk.files path ∨ nextDisk.files path = none) ∧
      ∀ path, nextDisk.sidecars path = disk.sidecars path ∨ nextDisk.sidecars path = none := by
  have rests : Session.Rests session session := .of_events dormant rfl
  have same : (∀ path, disk.files path = disk.files path ∨ disk.files path = none) ∧
      ∀ path, disk.sidecars path = disk.sidecars path ∨ disk.sidecars path = none :=
    ⟨fun _ => .inl rfl, fun _ => .inl rfl⟩
  have removed : ∀ path, (disk.put session.filePath none).files path = disk.files path ∨
      (disk.put session.filePath none).files path = none := by
    intro path
    by_cases here : path = session.filePath
    · subst here
      exact .inr (Function.update_self ..)
    · exact .inl (Function.update_of_ne here ..)
  unfold Session.mutate at stepped
  split at stepped
  case h_1 =>
    cases stepped
    exact ⟨rests, rfl, same⟩
  case h_2 =>
    rw [if_pos dormant.deleted] at stepped
    cases stepped
    exact ⟨rests, rfl, same⟩
  case h_3 =>
    cases stepped
    exact ⟨.of_events (dormant.setTransition true) rfl, rfl, same⟩
  case h_4 =>
    obtain ⟨⟨result, resultTask⟩, moved, equal⟩ := Option.map_eq_some_iff.mp stepped
    cases equal
    exact ⟨dormant.prepareStep moved, rfl, same⟩
  case h_5 mutation =>
    cases mutation with
    | moveTo path stateFilePath => cases still
    | deleteWith =>
        cases stepped
        exact ⟨rests, rfl, removed, same.2⟩
  case h_6 mutation =>
    cases mutation with
    | moveTo path stateFilePath => cases still
    | deleteWith =>
        cases stepped
        exact ⟨rests, rfl, same⟩
  case h_7 mutation =>
    cases mutation with
    | moveTo path stateFilePath => cases still
    | deleteWith =>
        cases stepped
        exact ⟨rests, rfl, removed, same.2⟩
  case h_8 =>
    cases stepped
    rw [dormant.resumeWatching]
    exact ⟨dormant.rejectTransition, rfl, same⟩
  case h_10 =>
    cases stepped
    exact ⟨rests, rfl, same⟩
  case h_19 =>
    cases stepped
    rw [dormant.markDeleted]
    refine ⟨rests, rfl, ?_, ?_⟩
    · unfold Session.deleteStateSnapshot
      split <;> exact same.1
    · unfold Session.deleteStateSnapshot
      split
      · exact same.2
      · rename_i stateFilePath _
        intro path
        by_cases here : path = stateFilePath
        · subst here
          exact .inr (Function.update_self ..)
        · exact .inl (Function.update_of_ne here ..)
  case h_20 =>
    cases stepped
    rw [dormant.resumeWatching]
    exact ⟨dormant.rejectTransition, rfl, same⟩
  case h_21 =>
    cases stepped
    exact ⟨.of_events (dormant.setTransition false) rfl, rfl, same⟩
  case h_22 => cases stepped
  all_goals cases still

/-- A deleted session that is dormant stays so and writes nothing. -/
theorem dormant_step {state next : Tenancy R} {label : TenancyLabel R}
    (dormant : state.site.session.Dormant) (still : state.task.moves = false)
    (allowed : ¬ state.Outlives label)
    (stepped : (tenancyMachine R).step state label = some next) :
    next.site.session.Dormant ∧ next.task.moves = false ∧ WritesNothing state next label := by
  have missing : state.finds label = false := by
    simpa [Outlives, dormant.deleted] using allowed
  have rests : ∀ {session : Session R} {task : MutationTask},
      Session.Rests state.site.session session → task.moves = false →
      (⟨⟨session, state.site.disk⟩, task⟩ : Tenancy R).site.session.Dormant ∧
        task.moves = false ∧
        WritesNothing state ⟨⟨session, state.site.disk⟩, task⟩ label := by
    intro session task rests still
    exact ⟨rests.dormant, still, writesNothing_of_rests rests (fun _ _ => .inl rfl)
      fun _ => .inl rfl⟩
  simp only [tenancyMachine] at stepped
  cases label with
  | session label =>
      obtain ⟨site, moved, rfl⟩ := Option.map_eq_some_iff.mp stepped
      simp only [sessionMachine] at moved
      cases label with
      | update update attribution => simp [dormant.deleted] at moved
      | edit content attribution => simp [dormant.deleted] at moved
      | retry =>
          dsimp only at moved
          split at moved
          · obtain rfl := Option.some.inj moved
            exact rests dormant.requestPersist still
          · cases moved
      | persist io =>
          obtain ⟨⟨session, disk⟩, persisted, rfl⟩ := Option.map_eq_some_iff.mp moved
          have gone : ∀ path content attribution,
              state.site.session.persist = .readMarkdown path content attribution → io = .ok →
              state.site.disk.files path = none := by
            rintro path content attribution task rfl
            simpa [finds, task] using missing
          obtain ⟨settled, rfl⟩ := dormant.persistStep gone persisted
          exact rests settled still
      | startCheck =>
          obtain ⟨session, started, rfl⟩ := Option.map_eq_some_iff.mp moved
          unfold Session.startCheck at started
          split at started
          · simp [dormant.watching] at started
          · cases started
      | check io =>
          obtain ⟨⟨session, disk⟩, checked, rfl⟩ := Option.map_eq_some_iff.mp moved
          have gone : ∀ path, state.site.session.check = .readMarkdown path → io = .ok →
              (state.site.disk.files path).any
                (fun content => !state.site.session.knows content) = false := by
            rintro path task rfl
            simpa [finds, task] using missing
          obtain ⟨settled, rfl⟩ := dormant.checkStep gone checked
          exact rests settled still
      | external content =>
          obtain rfl := Option.some.inj moved
          refine ⟨dormant, still, ?_, fun _ => .inl rfl, ⟨[], by simp, ?_⟩, dormant.deleted⟩
          · intro announced
            cases announced
          · intro event listed
            cases listed
  | mutate mutation =>
      dsimp only at stepped
      split at stepped
      · split at stepped
        · cases stepped
        · obtain rfl := Option.some.inj stepped
          exact rests (.of_events dormant rfl) rfl
      · cases stepped
  | proceed io =>
      obtain ⟨⟨session, disk, task⟩, moved, rfl⟩ := Option.map_eq_some_iff.mp stepped
      obtain ⟨settled, quiet, files, sidecars⟩ := dormant_mutate dormant still moved
      exact ⟨settled.dormant, quiet,
        writesNothing_of_rests settled (fun _ => files) sidecars⟩

theorem Laid.step {state next : Tenancy R} {label : TenancyLabel R} (laid : state.Laid)
    (allowed : ¬ state.Outlives label)
    (stepped : (tenancyMachine R).step state label = some next) : next.Laid := by
  cases deleted : state.site.session.deleted with
  | false => exact laid_step_of_living (laid.living deleted) allowed stepped
  | true =>
      obtain ⟨dormant, still, _⟩ :=
        dormant_step (laid.dormant deleted) (laid.still deleted) allowed stepped
      exact .of_dormant dormant still

end Tenancy

/-- **Deleted stays deleted.** Take any run of an open session with updates, persist
iterations, checks, outside changes of the file, moves and deletions, in which the
session is never marked deleted while something is still to write, and no read that
is still out finds a file afterwards. Once the session is marked deleted, no step of
the run creates or writes a file or reports a content as persisted. -/
theorem deleted_stays_deleted {R : Runtime} {source marked target next : Tenancy R}
    {labels rest : List (TenancyLabel R)} {label : TenancyLabel R}
    (live : source.site.session.deleted = false)
    (recorded : source.site.session.lastWrittenHash.isSome = true)
    (before : (tenancyMachine R).Run (fun state label => ¬ state.Outlives label)
      source labels marked)
    (deleted : marked.site.session.deleted = true)
    (after : (tenancyMachine R).Run (fun state label => ¬ state.Outlives label)
      marked rest target)
    (allowed : ¬ target.Outlives label)
    (stepped : (tenancyMachine R).step target label = some next) :
    target.WritesNothing next label := by
  have keep : ∀ (state : Tenancy R) label next, ¬ state.Outlives label →
      (tenancyMachine R).step state label = some next → state.Laid → next.Laid :=
    fun _ _ _ allowed stepped laid => laid.step allowed stepped
  have laid : marked.Laid := before.invariant keep (.of_living ⟨live, recorded⟩)
  have stay : ∀ (state : Tenancy R) label next, ¬ state.Outlives label →
      (tenancyMachine R).step state label = some next →
      state.site.session.Dormant ∧ state.task.moves = false →
      next.site.session.Dormant ∧ next.task.moves = false := by
    intro state label next allowed stepped held
    obtain ⟨dormant, still, _⟩ := Tenancy.dormant_step held.1 held.2 allowed stepped
    exact ⟨dormant, still⟩
  obtain ⟨dormant, still⟩ := after.invariant stay ⟨laid.dormant deleted, laid.still deleted⟩
  exact (Tenancy.dormant_step dormant still allowed stepped).2.2

/-- The note `n.md`, opened on a content, without a path mutation. -/
def Replica.tenancy (content : JsString) : Tenancy replicaRuntime :=
  ⟨Replica.openedSite content, .idle⟩

/-- A persist has found the file when it is deleted from outside; a check marks the
session deleted, and the persist then writes the file again. -/
theorem deleted_file_written_again :
    ∃ (labels rest : List (TenancyLabel replicaRuntime))
      (marked target next : Tenancy replicaRuntime) (label : TenancyLabel replicaRuntime),
      (Replica.tenancy [97]).site.session.deleted = false ∧
      (Replica.tenancy [97]).site.session.lastWrittenHash.isSome = true ∧
      (tenancyMachine replicaRuntime).Run (fun _ _ => True) (Replica.tenancy [97]) labels marked ∧
      marked.site.session.deleted = true ∧
      (tenancyMachine replicaRuntime).Run (fun _ _ => True) marked rest target ∧
      (tenancyMachine replicaRuntime).step target label = some next ∧
      ¬ target.WritesNothing next label := by
  refine ⟨[.session (.update (.insert 1 1 [98]) none), .session (.persist .ok),
    .session (.external none), .session .startCheck, .session (.check .ok),
    .session (.check .ok)], [.session (.persist .ok)], _, _, _, .session (.persist .ok), rfl, rfl,
    Machine.evaluate_sound rfl, rfl, Machine.evaluate_sound rfl, rfl, ?_⟩
  intro nothing
  have file := nothing.files rfl [110]
  revert file
  decide

/-- The note after a client has typed, the file has been deleted from outside and a
check has found it missing; the persist has not read yet. -/
def Replica.deletedTenancy : Tenancy replicaRuntime :=
  ((tenancyMachine replicaRuntime).evaluate (fun state label => ¬ state.Outlives label)
    (Replica.tenancy [97]) [.session (.update (.insert 1 1 [98]) none),
      .session (.external none), .session .startCheck, .session (.check .ok),
      .session (.check .ok)]).getD (Replica.tenancy [97])

/-- A persist that reads only after the mark writes nothing. -/
theorem deleted_stays_deleted_read :
    ∃ next, (tenancyMachine replicaRuntime).Run (fun state label => ¬ state.Outlives label)
        (Replica.tenancy [97]) [.session (.update (.insert 1 1 [98]) none),
          .session (.external none), .session .startCheck, .session (.check .ok),
          .session (.check .ok)] Replica.deletedTenancy ∧
      (tenancyMachine replicaRuntime).step Replica.deletedTenancy (.session (.persist .ok)) =
        some next ∧
      Replica.deletedTenancy.WritesNothing next (.session (.persist .ok)) := by
  have before : (tenancyMachine replicaRuntime).Run (fun state label => ¬ state.Outlives label)
      (Replica.tenancy [97]) [.session (.update (.insert 1 1 [98]) none),
        .session (.external none), .session .startCheck, .session (.check .ok),
        .session (.check .ok)] Replica.deletedTenancy := Machine.evaluate_sound rfl
  exact ⟨_, before, rfl, deleted_stays_deleted rfl rfl before rfl (.nil _) (by decide +kernel) rfl⟩

end Kb1Daemon
