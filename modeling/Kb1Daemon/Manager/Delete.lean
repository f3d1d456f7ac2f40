import Kb1Daemon.Manager.Transition

/-! # Deleting a folder under live sessions

`deleteSessionSubtree` takes the sessions under a folder one after another: it
prepares a session, installs its path transition, deletes the folder on disk if
that has not happened yet, removes the session's sidecar and marks the session
deleted. So the whole folder is gone when the second session is prepared.

A session whose file is gone writes nothing, unless a persist was already past
its comparison (`Session.Orphan`). If no persist of another session is in flight
when the folder is removed, and no check of a later session is in flight when its
turn comes, then nothing typed before the call is lost, the call does not fail
after the removal and no file comes back (`delete_keeps_typed`). With a persist in
flight the removed folder lacks what it carries (`typed_text_not_in_trash`).
-/

namespace Kb1Daemon

open JsString

/-- Where the removal of the folder stands. -/
inductive DiskDelete where
  | idle
  | running
  /-- The removal has taken effect and its promise is still pending. -/
  | removed
  | settled
  | rejected
  deriving DecidableEq, Repr

/-- The folder is gone. -/
def DiskDelete.isRemoved : DiskDelete → Bool
  | .removed | .settled => true
  | .idle | .running | .rejected => false

/-- The await at which the call stands, with the paths whose turn is still to
come. -/
inductive DeleteTask where
  | idle
  /-- The head of the loop. -/
  | next (remaining : List JsString)
  /-- The session of the path is gone; only the removal is awaited. -/
  | missing (remaining : List JsString)
  | preparing (path : JsString) (task : PrepareTask) (remaining : List JsString)
  /-- The transition is installed and awaits the removal. -/
  | deletingDisk (path : JsString) (remaining : List JsString)
  | deletingState (path : JsString) (remaining : List JsString)
  /-- The session is marked deleted and its transition is to be cleared. -/
  | release (path : JsString) (remaining : List JsString)
  /-- No session has made the call remove the folder. -/
  | finishing
  | done
  | failed
  deriving DecidableEq, Repr

/-- Remove a folder with everything under it. -/
def Disk.removeFolder (disk : Disk) (folder : JsString) : Disk :=
  { disk with files := fun path => if isUnder folder path then none else disk.files path }

/-- A deletion of a folder with the open sessions under it. -/
structure Deleting (R : Runtime) where
  folder : JsString
  paths : List JsString
  sessions : JsString → Session R
  disk : Disk
  task : DeleteTask
  diskDelete : DiskDelete
  /-- The files as they were when the folder was removed. -/
  trash : JsString → Option JsString
  /-- The texts each document has had between the call and the removal. -/
  texts : JsString → List JsString

/-- The steps of a deletion and of the sessions it concerns. -/
inductive DeleteLabel (R : Runtime) where
  /-- A session takes a step, or a client reaches it. -/
  | session (path : JsString) (label : SessionLabel R)
  /-- The call begins. -/
  | call
  /-- The call continues. -/
  | proceed
  /-- The folder is removed. -/
  | removeDisk
  /-- The removal is refused or fails. -/
  | rejectDelete
  /-- The promise of the removal settles. -/
  | settleDelete

namespace Deleting

variable {R : Runtime}

/-- Put a session back. -/
def put (state : Deleting R) (path : JsString) (session : Session R) : Deleting R :=
  { state with sessions := Function.update state.sessions path session }

/-- The call at its next await. -/
def standAt (state : Deleting R) (task : DeleteTask) : Deleting R := { state with task := task }

/-- The callback of the loop: start the removal unless it has been started. -/
def deleteOnDisk (state : Deleting R) : Deleting R :=
  if state.diskDelete = .idle then { state with diskDelete := .running } else state

/-- Note the text of a session as long as the folder is there. -/
def note (state : Deleting R) (path : JsString) : Deleting R :=
  if state.diskDelete.isRemoved then state
  else
    { state with
      texts := Function.update state.texts path
        ((state.sessions path).currentContent :: state.texts path) }

/-- The call continues up to its next await. -/
def proceed (state : Deleting R) : Option (Deleting R) :=
  match state.task with
  | .idle | .done | .failed => none
  | .next (path :: remaining) =>
      if (state.sessions path).deleted then some (state.deleteOnDisk.standAt (.missing remaining))
      else some (state.standAt (.preparing path .opening remaining))
  | .next [] =>
      if state.diskDelete = .idle then some (state.deleteOnDisk.standAt .finishing)
      else some (state.standAt .done)
  | .missing remaining =>
      match state.diskDelete with
      | .settled => some (state.standAt (.next remaining))
      | .rejected => some (state.standAt .failed)
      | .idle | .running | .removed => none
  | .preparing _ .failed _ => some (state.standAt .failed)
  | .preparing path .prepared remaining =>
      some ((state.put path ((state.sessions path).setTransition true)).deleteOnDisk.standAt
        (.deletingDisk path remaining))
  | .preparing path task remaining =>
      ((state.sessions path).prepareStep task).map fun prepared =>
        (state.put path prepared.1).standAt (.preparing path prepared.2 remaining)
  | .deletingDisk path remaining =>
      match state.diskDelete with
      | .settled => some (state.standAt (.deletingState path remaining))
      | .rejected =>
          let session := state.sessions path
          let watching := if session.deleted then session else session.startWatching
          some ((state.put path (watching.setTransition false)).standAt .failed)
      | .idle | .running | .removed => none
  | .deletingState path remaining =>
      let session := state.sessions path
      let disk :=
        match session.stateFilePath with
        | none => state.disk
        | some stateFilePath => state.disk.removeSidecar stateFilePath
      some ({ state.put path session.markDeleted with disk := disk }.standAt
        (.release path remaining))
  | .release path remaining =>
      some ((state.put path ((state.sessions path).setTransition false)).standAt (.next remaining))
  | .finishing =>
      match state.diskDelete with
      | .settled => some (state.standAt .done)
      | .rejected => some (state.standAt .failed)
      | .idle | .running | .removed => none

/-- The call has a continuation due that waits for no I/O. -/
def ready (state : Deleting R) : Bool :=
  match state.task with
  | .idle | .done | .failed | .deletingState _ _ => false
  | .next _ | .release _ _ | .preparing _ .prepared _ | .preparing _ .failed _ => true
  | .preparing path task _ => ((state.sessions path).prepareStep task).isSome
  | .missing _ | .deletingDisk _ _ | .finishing =>
      match state.diskDelete with
      | .settled | .rejected => true
      | .idle | .running | .removed => false

/-- No continuation is due: the next thing to happen is an I/O completion, a timer
or a message. -/
def quiet (state : Deleting R) : Bool :=
  !state.ready && state.paths.all fun path => !(state.sessions path).persistReady

/-- The step is a continuation that waits for no I/O. -/
def runsAtOnce (state : Deleting R) : DeleteLabel R → Bool
  | .session path (.persist _) => (state.sessions path).persistReady
  | .proceed => state.ready
  | _ => false

/-- What a step does. -/
def take (state : Deleting R) : DeleteLabel R → Option (Deleting R)
  | .session path label =>
      if path ∈ state.paths then
        ((sessionMachine R).step ⟨state.sessions path, state.disk⟩ label).map fun site =>
          { state.put path site.session with disk := site.disk }.note path
      else none
  | .call =>
      if state.task = .idle then
        some { state with
          task := .next state.paths
          texts := fun path => [(state.sessions path).currentContent] }
      else none
  | .proceed => state.proceed
  | .removeDisk =>
      if state.diskDelete = .running then
        some { state with
          diskDelete := .removed
          disk := state.disk.removeFolder state.folder
          trash := state.disk.files }
      else none
  | .rejectDelete =>
      if state.diskDelete = .running then some { state with diskDelete := .rejected } else none
  | .settleDelete =>
      if state.diskDelete = .removed then some { state with diskDelete := .settled } else none

end Deleting

/-- The machine of a deletion. Continuations run before anything else happens. -/
def deleteMachine (R : Runtime) : Machine (Deleting R) (DeleteLabel R) where
  step state label := if state.quiet || state.runsAtOnce label then state.take label else none

namespace Session

variable {R : Runtime}

/-- The persist loop has written nothing that it has not recorded, and finds its
file missing if it reads it. -/
def FindsNothing (session : Session R) : Prop :=
  match session.persist with
  | .idle | .awaitTransition | .loopTest | .settle => True
  | .readMarkdown path _ _ => path = session.filePath
  | .compareDisk _ _ diskContent => diskContent = none
  | .writeMarkdown _ _ _ | .writeSnapshot _ _ _ | .recordHash _ _ | .reconcileSnapshot _ _ => False

/-- A check finds the file missing, or has read an expected content before. -/
def ChecksNothing (session : Session R) : Prop :=
  match session.check with
  | .idle => True
  | .readMarkdown path => path = session.filePath
  | .compareDisk none => True
  | .compareDisk (some content) => session.lastWrittenHash = some (R.hashContent content) ∨
      session.pendingWriteHash = some (R.hashContent content)
  | .reconcileSnapshot _ _ => False

/-- A session whose file has been removed between two persists. -/
structure Orphan (session : Session R) : Prop where
  hash : session.lastWrittenHash.isSome = true
  persist : session.FindsNothing
  check : session.ChecksNothing
  faultless : session.Faultless

/-- A steady session without a persist in flight is orphaned by the removal of its
file. -/
theorem Steady.orphan {session : Session R} {disk : Disk} (steady : session.Steady disk)
    (rests : session.persist.inFlight = false) : session.Orphan := by
  obtain ⟨_, _, persist, check, faultless⟩ := steady
  refine ⟨?_, ?_, ?_, faultless⟩
  · unfold Materializes at persist
    rcases PersistTask.rests_of_not_inFlight rests with idle | waiting
    · simp only [idle] at persist
      rw [persist.1.hash]
      rfl
    · simp only [waiting] at persist
      obtain ⟨held, written, _⟩ := persist
      rw [written.hash]
      rfl
  · unfold FindsNothing
    rcases PersistTask.rests_of_not_inFlight rests with idle | waiting
    · rw [idle]
      trivial
    · rw [waiting]
      trivial
  · unfold CheckAgrees at check
    unfold ChecksNothing
    cases task : session.check with
    | idle => trivial
    | readMarkdown path => simpa only [task] using check
    | compareDisk diskContent =>
        simp only [task] at check
        obtain ⟨content, rfl, known⟩ := check
        exact known
    | reconcileSnapshot snapshot event => simp [task] at check

theorem orphan_startMaterialize {session : Session R} (orphan : session.Orphan) :
    session.startMaterialize.Orphan := by
  obtain ⟨hash, _, check, loop, outcomes, recovered, error⟩ := orphan
  unfold startMaterialize
  split
  · exact ⟨hash, trivial, check, loop, outcomes, recovered, error⟩
  · unfold captureContent
    split
    · exact ⟨hash, trivial, check, loop, outcomes, recovered, error⟩
    · exact ⟨hash, rfl, check, loop, outcomes, recovered, error⟩

theorem Orphan.handleDocumentUpdate {session : Session R} (orphan : session.Orphan) (doc : R.Doc)
    (attribution : Option R.Attribution) :
    (({ session with doc := doc } : Session R).handleDocumentUpdate attribution).Orphan := by
  obtain ⟨hash, persist, check, loop, outcomes, recovered, error⟩ := orphan
  unfold Session.handleDocumentUpdate
  split
  · exact ⟨hash, persist, check, loop, outcomes, recovered, error⟩
  · unfold Session.requestPersist
    split
    · exact orphan_startMaterialize ⟨hash, persist, check, rfl, outcomes, recovered, error⟩
    · exact ⟨hash, persist, check, loop, outcomes, recovered, error⟩

theorem Orphan.markDeleted {session : Session R} (orphan : session.Orphan) :
    session.markDeleted.Orphan := by
  unfold Session.markDeleted
  split
  · exact orphan
  · obtain ⟨hash, persist, check, loop, outcomes, recovered, error⟩ := orphan
    exact ⟨hash, persist, check, loop, outcomes, recovered, error⟩

theorem Orphan.setTransition {session : Session R} (orphan : session.Orphan) (installed : Bool) :
    (session.setTransition installed).Orphan := by
  obtain ⟨hash, persist, check, loop, outcomes, recovered, error⟩ := orphan
  exact ⟨hash, persist, check, loop, outcomes, recovered, error⟩

/-- The persist loop of an orphan marks it deleted at most. -/
theorem Orphan.persistStep {session next : Session R} {disk nextDisk : Disk}
    (orphan : session.Orphan) (missing : disk.files session.filePath = none)
    (stepped : session.persistStep disk .ok = some (next, nextDisk)) :
    next.Orphan ∧ nextDisk = disk := by
  have persist := orphan.persist
  unfold FindsNothing at persist
  unfold Session.persistStep at stepped
  cases task : session.persist with
  | idle => simp [task] at stepped
  | awaitTransition =>
      simp only [task] at stepped
      split at stepped
      · cases stepped
      · cases stepped
        obtain ⟨hash, _, check, loop, outcomes, recovered, error⟩ := orphan
        unfold captureContent
        split
        · exact ⟨⟨hash, trivial, check, loop, outcomes, recovered, error⟩, rfl⟩
        · exact ⟨⟨hash, rfl, check, loop, outcomes, recovered, error⟩, rfl⟩
  | readMarkdown path content attribution =>
      simp only [task] at persist stepped
      subst persist
      cases stepped
      obtain ⟨hash, _, check, loop, outcomes, recovered, error⟩ := orphan
      exact ⟨⟨hash, missing, check, loop, outcomes, recovered, error⟩, rfl⟩
  | compareDisk content attribution diskContent =>
      simp only [task] at persist stepped
      subst persist
      cases stepped
      obtain ⟨expected, recorded⟩ := Option.isSome_iff_exists.mp orphan.hash
      have compared : session.compareDisk content attribution none =
          { (session.warn expected none).markDeleted with persist := .loopTest } := by
        simp [compareDisk, recorded, reconcileExternalContent]
      rw [compared]
      obtain ⟨hash, persist, check, loop, outcomes, recovered, error⟩ := orphan
      have warned : (session.warn expected none).Orphan :=
        ⟨hash, persist, check, loop, outcomes, recovered, error⟩
      obtain ⟨hash, _, check, loop, outcomes, recovered, error⟩ := warned.markDeleted
      exact ⟨⟨hash, trivial, check, loop, outcomes, recovered, error⟩, rfl⟩
  | loopTest =>
      simp only [task] at stepped
      cases stepped
      refine ⟨?_, rfl⟩
      unfold Session.loopTest
      split
      · exact orphan_startMaterialize orphan
      · obtain ⟨hash, _, check, loop, outcomes, recovered, error⟩ := orphan
        exact ⟨hash, trivial, check, loop, outcomes, recovered, error⟩
  | settle =>
      simp only [task] at stepped
      cases stepped
      obtain ⟨hash, _, check, loop, outcomes, recovered, error⟩ := orphan
      refine ⟨⟨hash, trivial, check, loop, ?_, recovered, error⟩, rfl⟩
      intro rejected member
      rcases List.mem_append.mp member with earlier | last
      · exact outcomes rejected earlier
      · rw [List.mem_singleton.mp last]
        exact loop
  | writeMarkdown path content attribution => simp [task] at persist
  | writeSnapshot content attribution snapshot => simp [task] at persist
  | recordHash content attribution => simp [task] at persist
  | reconcileSnapshot snapshot event => simp [task] at persist

/-- A check of an orphan marks it deleted at most. -/
theorem Orphan.checkStep {session next : Session R} {disk nextDisk : Disk}
    (orphan : session.Orphan) (missing : disk.files session.filePath = none)
    (stepped : session.checkStep disk .ok = some (next, nextDisk)) :
    next.Orphan ∧ nextDisk = disk := by
  have check := orphan.check
  unfold ChecksNothing at check
  unfold Session.checkStep at stepped
  cases task : session.check with
  | idle => simp [task] at stepped
  | reconcileSnapshot snapshot event => simp [task] at check
  | readMarkdown path =>
      simp only [task] at check stepped
      subst check
      cases stepped
      rw [missing]
      obtain ⟨hash, persist, _, loop, outcomes, recovered, error⟩ := orphan
      exact ⟨⟨hash, persist, trivial, loop, outcomes, recovered, error⟩, rfl⟩
  | compareDisk diskContent =>
      simp only [task] at check stepped
      cases stepped
      refine ⟨?_, rfl⟩
      cases diskContent with
      | none =>
          obtain ⟨hash, persist, _, loop, outcomes, recovered, error⟩ := orphan.markDeleted
          exact ⟨hash, persist, trivial, loop, outcomes, recovered, error⟩
      | some content =>
          rw [compareCheck, if_pos check]
          obtain ⟨hash, persist, _, loop, outcomes, recovered, error⟩ := orphan
          exact ⟨hash, persist, trivial, loop, outcomes, recovered, error⟩

end Session

/-- **Steps of an orphan.** A session whose file has been removed between two
persists writes nothing. -/
theorem sessionMachine_step_orphan {R : Runtime} {site next : Site R} {label : SessionLabel R}
    (faultless : label.Faultless) (orphan : site.session.Orphan)
    (missing : site.disk.files site.session.filePath = none)
    (stepped : (sessionMachine R).step site label = some next) :
    next.session.Orphan ∧ next.disk = site.disk := by
  simp only [sessionMachine] at stepped
  cases label with
  | update update attribution =>
      dsimp only at stepped
      split at stepped
      · obtain rfl := Option.some.inj stepped
        refine ⟨?_, rfl⟩
        unfold Session.applyUpdate
        split
        · exact orphan.handleDocumentUpdate _ attribution
        · obtain ⟨hash, persist, check, loop, outcomes, recovered, error⟩ := orphan
          exact ⟨hash, persist, check, loop, outcomes, recovered, error⟩
      · cases stepped
  | edit content attribution =>
      dsimp only at stepped
      split at stepped
      · obtain rfl := Option.some.inj stepped
        refine ⟨?_, rfl⟩
        unfold Session.applyContent
        split
        · exact orphan
        · exact orphan.handleDocumentUpdate _ attribution
      · cases stepped
  | retry =>
      dsimp only at stepped
      rw [if_neg (by simp [orphan.faultless.error])] at stepped
      cases stepped
  | persist io =>
      obtain ⟨⟨session, disk⟩, moved, rfl⟩ := Option.map_eq_some_iff.mp stepped
      cases faultless
      exact orphan.persistStep missing moved
  | startCheck =>
      obtain ⟨session, started, rfl⟩ := Option.map_eq_some_iff.mp stepped
      unfold Session.startCheck at started
      split at started
      · split at started
        · obtain rfl := Option.some.inj started
          obtain ⟨hash, persist, _, loop, outcomes, recovered, error⟩ := orphan
          exact ⟨⟨hash, persist, rfl, loop, outcomes, recovered, error⟩, rfl⟩
        · cases started
      · cases started
  | check io =>
      obtain ⟨⟨session, disk⟩, moved, rfl⟩ := Option.map_eq_some_iff.mp stepped
      cases faultless
      exact orphan.checkStep missing moved
  | external content => exact faultless.elim

/-- No check is running. -/
def CheckTask.isIdle : CheckTask → Bool
  | .idle => true
  | _ => false

theorem CheckTask.isIdle_iff {task : CheckTask} : task.isIdle = true ↔ task = .idle := by
  cases task <;> simp [isIdle]

namespace Session

variable {R : Runtime}

/-- The preparation of a session whose file is gone goes through. -/
def GoesThrough (session : Session R) : PrepareTask → Prop
  | .opening => session.deleted = false
  | .flushing (.awaitPersist _) | .flushing .resolved | .prepared => True
  | .awaitCheck | .flushing _ | .failed => False

theorem prepareStep_goesThrough {session next : Session R} {task nextTask : PrepareTask}
    (faultless : session.Faultless) (through : session.GoesThrough task)
    (unchecked : task = .opening → session.check = .idle)
    (stepped : session.prepareStep task = some (next, nextTask)) :
    (next = session ∨ next = session.stopWatching) ∧ next.GoesThrough nextTask := by
  unfold prepareStep at stepped
  split at stepped
  · split at stepped
    · rw [if_neg (by simpa [GoesThrough] using through)] at stepped
      split at stepped
      · rcases flushForTransition_cases faultless.stopWatching through with
          ⟨flushed, _⟩ | ⟨flushed, _⟩
        all_goals
          rw [flushed] at stepped
          cases stepped
          exact ⟨.inr rfl, trivial⟩
      · rename_i busy
        exact absurd (unchecked rfl) busy
    · cases stepped
  · exact through.elim
  · cases stepped
    exact ⟨.inl rfl, trivial⟩
  · exact through.elim
  · rename_i flushTask unresolved unrejected
    obtain ⟨⟨flushed, flushedTask⟩, moved, same⟩ := Option.map_eq_some_iff.mp stepped
    cases same
    cases flushTask with
    | awaitPersist generation =>
        obtain ⟨rfl, rfl, _⟩ := flushStep_of_faultless faultless moved
        exact ⟨.inl rfl, trivial⟩
    | awaitRetry generation => exact through.elim
    | resolved => exact absurd rfl unresolved
    | rejected => exact absurd rfl unrejected
  · cases stepped
  · cases stepped

theorem Orphan.stopWatching {session : Session R} (orphan : session.Orphan) :
    session.stopWatching.Orphan := by
  obtain ⟨hash, persist, check, loop, outcomes, recovered, error⟩ := orphan
  exact ⟨hash, persist, check, loop, outcomes, recovered, error⟩

/-- A continuation of the persist loop that waits for no I/O does not mark the
session deleted. -/
theorem deleted_of_persistReady {session next : Session R} {disk nextDisk : Disk} {io : Io}
    (ready : session.persistReady = true)
    (stepped : session.persistStep disk io = some (next, nextDisk)) :
    next.deleted = session.deleted := by
  have started : session.startMaterialize.deleted = session.deleted := by
    unfold startMaterialize captureContent
    split
    · rfl
    · split <;> rfl
  unfold persistReady at ready
  unfold persistStep at stepped
  cases task : session.persist with
  | loopTest =>
      simp only [task] at stepped
      cases io with
      | ok =>
          cases stepped
          unfold loopTest
          split
          · exact started
          · rfl
      | fail => cases stepped
      | failLate => cases stepped
  | settle =>
      simp only [task] at stepped
      cases io with
      | ok =>
          cases stepped
          rfl
      | fail => cases stepped
      | failLate => cases stepped
  | awaitTransition =>
      simp only [task] at stepped
      cases io with
      | ok =>
          dsimp only at stepped
          split at stepped
          · cases stepped
          · cases stepped
            unfold captureContent
            split <;> rfl
      | fail => cases stepped
      | failLate => cases stepped
  | _ => simp [task] at ready

end Session

namespace Deleting

variable {R : Runtime}

/-- What holds at the await where the call stands. -/
def Stands (state : Deleting R) : Prop :=
  match state.task with
  | .idle => state.diskDelete = .idle
  | .next remaining =>
      (∀ path ∈ remaining, path ∈ state.paths) ∧
        (state.diskDelete = .idle ∨ state.diskDelete = .settled)
  | .missing remaining =>
      (∀ path ∈ remaining, path ∈ state.paths) ∧ state.diskDelete = .settled
  | .preparing path task remaining =>
      path ∈ state.paths ∧ (∀ path ∈ remaining, path ∈ state.paths) ∧
        (state.diskDelete = .idle ∧ (state.sessions path).Quiesced task ∧
            (state.sessions path).Calm task ∨
          state.diskDelete = .settled ∧ (state.sessions path).GoesThrough task)
  | .deletingDisk path remaining =>
      path ∈ state.paths ∧ (∀ path ∈ remaining, path ∈ state.paths) ∧
        state.diskDelete ≠ .idle ∧
        (state.diskDelete.isRemoved = false → (state.sessions path).Paused ∧
          ∃ content ∈ state.texts path, state.disk.files path = some content)
  | .deletingState path remaining | .release path remaining =>
      path ∈ state.paths ∧ (∀ path ∈ remaining, path ∈ state.paths) ∧
        state.diskDelete = .settled
  | .finishing => state.diskDelete ≠ .idle
  | .done => state.diskDelete = .settled
  | .failed => state.diskDelete = .rejected

/-- What holds in every state of a deletion: the sessions are steady until the
folder is removed and orphans afterwards. -/
structure Sound (state : Deleting R) : Prop where
  inside : ∀ path ∈ state.paths, isUnder state.folder path = true
  bound : ∀ path ∈ state.paths, (state.sessions path).filePath = path
  opened : ∀ path ∈ state.paths, (state.sessions path).opened = true
  steady : state.diskDelete.isRemoved = false →
    ∀ path ∈ state.paths, (state.sessions path).Steady state.disk
  transition : state.diskDelete.isRemoved = false → ∀ path ∈ state.paths,
    (state.sessions path).pathTransition = true → ∃ remaining, state.task = .deletingDisk path remaining
  heard : state.task ≠ .idle → state.diskDelete.isRemoved = false →
    ∀ path ∈ state.paths, (state.sessions path).currentContent ∈ state.texts path
  orphan : state.diskDelete.isRemoved = true → ∀ path ∈ state.paths, (state.sessions path).Orphan
  gone : state.diskDelete.isRemoved = true →
    ∀ path, isUnder state.folder path = true → state.disk.files path = none
  kept : state.diskDelete.isRemoved = true →
    ∀ path ∈ state.paths, ∃ content ∈ state.texts path, state.trash path = some content
  stands : state.Stands

theorem rests_of_quiet {state : Deleting R} (quiet : state.quiet = true) {path : JsString}
    (member : path ∈ state.paths) :
    state.ready = false ∧ (state.sessions path).persistReady = false := by
  rw [Deleting.quiet, Bool.and_eq_true, List.all_eq_true] at quiet
  exact ⟨by simpa using quiet.1, by simpa using quiet.2 path member⟩

variable {state next : Deleting R}

/-- A step of a session before the removal leaves the call where it stands. -/
theorem Stands.session (sound : state.Sound) (present : state.diskDelete.isRemoved = false)
    {path : JsString} (member : path ∈ state.paths) {label : SessionLabel R} {site : Site R}
    (faultless : label.Faultless)
    (order : ¬ OvertakesCheck ⟨state.sessions path, state.disk⟩ label)
    (quiet : label.transacts = true → state.quiet = true)
    (running : label.transacts = true → (state.sessions path).persist ≠ .settle)
    (stepped : (sessionMachine R).step ⟨state.sessions path, state.disk⟩ label = some site)
    {texts : JsString → List JsString}
    (longer : ∀ other, ∀ content ∈ state.texts other, content ∈ texts other) :
    ({ state.put path site.session with disk := site.disk, texts := texts } : Deleting R).Stands := by
  have stands := sound.stands
  have steady := sound.steady present path member
  have self : Function.update state.sessions path site.session path = site.session :=
    Function.update_self ..
  unfold Stands at *
  dsimp only [Deleting.put]
  cases task : state.task with
  | preparing current prepare remaining =>
      simp only [task] at stands ⊢
      obtain ⟨listed, rest, ⟨idle, quiesced, calm⟩ | ⟨settled, _⟩⟩ := stands
      · refine ⟨listed, rest, .inl ⟨idle, ?_⟩⟩
        by_cases same : current = path
        · subst same
          rw [self]
          refine ⟨(steady_quiesced_step faultless order running stepped steady quiesced).2, ?_⟩
          refine Session.Calm.step calm steady.live steady.faultless ?_ stepped
          intro transacts
          have waits := (rests_of_quiet (quiet transacts) member).1
          simp only [ready, task] at waits
          cases prepare <;> simp_all
        · rw [Function.update_of_ne same]
          exact ⟨quiesced, calm⟩
      · rw [settled] at present
        cases present
  | deletingDisk current remaining =>
      simp only [task] at stands ⊢
      obtain ⟨listed, rest, started, held⟩ := stands
      refine ⟨listed, rest, started, ?_⟩
      intro _
      obtain ⟨paused, content, heard, file⟩ := held present
      by_cases same : current = path
      · subst same
        rw [self]
        obtain ⟨kept, _, unchanged, _⟩ := sessionMachine_step_paused faultless stepped paused
        refine ⟨kept, content, longer _ content heard, ?_⟩
        rw [unchanged]
        exact file
      · rw [Function.update_of_ne same]
        obtain ⟨_, _, _, frame⟩ :=
          sessionMachine_step_steady faultless order running stepped steady
        refine ⟨paused, content, longer _ content heard, ?_⟩
        rw [frame current (by rw [sound.bound path member]; exact same)]
        exact file
  | _ => simpa only [task] using stands

/-- A step of a session before the removal. -/
theorem Sound.session_steady (sound : state.Sound) (present : state.diskDelete.isRemoved = false)
    {path : JsString} (member : path ∈ state.paths) {label : SessionLabel R} {site : Site R}
    (faultless : label.Faultless)
    (order : ¬ OvertakesCheck ⟨state.sessions path, state.disk⟩ label)
    (quiet : label.transacts = true → state.quiet = true)
    (stepped : (sessionMachine R).step ⟨state.sessions path, state.disk⟩ label = some site) :
    ({ state.put path site.session with disk := site.disk }.note path).Sound := by
  have running : label.transacts = true → (state.sessions path).persist ≠ .settle := by
    intro transacts settling
    have rests := (rests_of_quiet (quiet transacts) member).2
    rw [Session.persistReady, settling] at rests
    cases rests
  obtain ⟨kept, _, _, frame⟩ := sessionMachine_step_steady faultless order running stepped
    (sound.steady present path member)
  have bound := sessionMachine_binding stepped
  have filePath : site.session.filePath = path :=
    (congrArg Session.Binding.filePath bound).trans (sound.bound path member)
  have self : Function.update state.sessions path site.session path = site.session :=
    Function.update_self ..
  have stands := @Stands.session R state sound present path member label site faultless order quiet
    running stepped
  rw [Deleting.note, if_neg (by rw [Deleting.put]; simpa using present)]
  dsimp only [Deleting.put] at *
  refine ⟨sound.inside, ?_, ?_, ?_, ?_, ?_, ?_, ?_, ?_, ?_⟩
  · intro other listed
    dsimp only
    by_cases same : other = path
    · subst same
      rw [self]
      exact filePath
    · rw [Function.update_of_ne same]
      exact sound.bound other listed
  · intro other listed
    dsimp only
    by_cases same : other = path
    · subst same
      rw [self]
      exact (congrArg Session.Binding.opened bound).trans (sound.opened other member)
    · rw [Function.update_of_ne same]
      exact sound.opened other listed
  · intro _ other listed
    dsimp only
    by_cases same : other = path
    · subst same
      rw [self]
      exact kept
    · rw [Function.update_of_ne same]
      refine (sound.steady present other listed).congr (frame _ ?_)
      rw [sound.bound other listed, sound.bound path member]
      exact same
  · intro _ other listed installed
    dsimp only at installed
    by_cases same : other = path
    · subst same
      rw [self] at installed
      have before := congrArg Session.Binding.pathTransition bound
      exact sound.transition present other listed (before.symm.trans installed)
    · rw [Function.update_of_ne same] at installed
      exact sound.transition present other listed installed
  · intro begun _ other listed
    dsimp only
    by_cases same : other = path
    · subst same
      rw [self, Function.update_self]
      exact List.mem_cons_self
    · rw [Function.update_of_ne same, Function.update_of_ne same]
      exact sound.heard begun present other listed
  · intro removed
    rw [present] at removed
    cases removed
  · intro removed
    rw [present] at removed
    cases removed
  · intro removed
    rw [present] at removed
    cases removed
  · refine stands ?_
    intro other content heard
    by_cases same : other = path
    · subst same
      rw [Function.update_self]
      exact List.mem_cons_of_mem _ heard
    · rw [Function.update_of_ne same]
      exact heard

/-- A step of a session after the removal. -/
theorem Sound.session_orphan (sound : state.Sound) (removed : state.diskDelete.isRemoved = true)
    {path : JsString} (member : path ∈ state.paths) {label : SessionLabel R} {site : Site R}
    (faultless : label.Faultless)
    (admitted : state.quiet = true ∨ state.runsAtOnce (.session path label) = true)
    (stepped : (sessionMachine R).step ⟨state.sessions path, state.disk⟩ label = some site) :
    ({ state.put path site.session with disk := site.disk }.note path).Sound := by
  have missing : state.disk.files (state.sessions path).filePath = none := by
    rw [sound.bound path member]
    exact sound.gone removed path (sound.inside path member)
  obtain ⟨orphan, same⟩ := sessionMachine_step_orphan faultless (sound.orphan removed path member)
    missing stepped
  have bound := sessionMachine_binding stepped
  have self : Function.update state.sessions path site.session path = site.session :=
    Function.update_self ..
  rw [Deleting.note, if_pos (by rw [Deleting.put]; exact removed), same]
  dsimp only [Deleting.put]
  refine ⟨sound.inside, ?_, ?_, ?_, ?_, ?_, ?_, sound.gone, sound.kept, ?_⟩
  · intro other listed
    dsimp only
    by_cases same : other = path
    · subst same
      rw [self]
      exact (congrArg Session.Binding.filePath bound).trans (sound.bound other member)
    · rw [Function.update_of_ne same]
      exact sound.bound other listed
  · intro other listed
    dsimp only
    by_cases same : other = path
    · subst same
      rw [self]
      exact (congrArg Session.Binding.opened bound).trans (sound.opened other member)
    · rw [Function.update_of_ne same]
      exact sound.opened other listed
  · intro present
    rw [removed] at present
    cases present
  · intro present
    rw [removed] at present
    cases present
  · intro _ present
    rw [removed] at present
    cases present
  · intro _ other listed
    dsimp only
    by_cases same : other = path
    · subst same
      rw [self]
      exact orphan
    · rw [Function.update_of_ne same]
      exact sound.orphan removed other listed
  · have stands := sound.stands
    unfold Stands at *
    dsimp only
    cases task : state.task with
    | preparing current prepare remaining =>
        simp only [task] at stands ⊢
        obtain ⟨listed, rest, ⟨idle, _⟩ | ⟨settled, through⟩⟩ := stands
        · rw [idle] at removed
          cases removed
        · refine ⟨listed, rest, .inr ⟨settled, ?_⟩⟩
          by_cases same : current = path
          · subst same
            rw [self]
            cases prepare with
            | opening =>
                -- the preparation is due, so only the persist loop's own continuations run
                have due : state.ready = true := by
                  simp only [ready, task, Session.prepareStep, sound.opened current member, ↓reduceIte]
                  split
                  · rfl
                  · split <;> rfl
                rcases admitted with quiet | atOnce
                · have waits := (rests_of_quiet quiet member).1
                  rw [due] at waits
                  cases waits
                · cases label with
                  | persist io =>
                      obtain ⟨⟨session, disk⟩, moved, rfl⟩ := Option.map_eq_some_iff.mp stepped
                      exact (Session.deleted_of_persistReady atOnce moved).trans through
                  | _ => cases atOnce
            | flushing flush =>
                cases flush <;> trivial
            | prepared => trivial
            | awaitCheck => exact through.elim
            | failed => exact through.elim
          · rw [Function.update_of_ne same]
            exact through
    | deletingDisk current remaining =>
        simp only [task] at stands ⊢
        obtain ⟨listed, rest, started, _⟩ := stands
        refine ⟨listed, rest, started, ?_⟩
        intro present
        rw [removed] at present
        cases present
    | _ => simpa only [task] using stands

theorem Sound.session (sound : state.Sound) {path : JsString} {label : SessionLabel R}
    (faultless : label.Faultless)
    (order : ¬ OvertakesCheck ⟨state.sessions path, state.disk⟩ label)
    (admitted : state.quiet = true ∨ state.runsAtOnce (.session path label) = true)
    (taken : state.take (.session path label) = some next) : next.Sound := by
  dsimp only [take] at taken
  split at taken
  · rename_i member
    obtain ⟨site, stepped, rfl⟩ := Option.map_eq_some_iff.mp taken
    cases removed : state.diskDelete.isRemoved with
    | false =>
        refine sound.session_steady removed member faultless order ?_ stepped
        intro transacts
        rcases admitted with quiet | atOnce
        · exact quiet
        · cases label <;> simp [SessionLabel.transacts] at transacts <;> cases atOnce
    | true => exact sound.session_orphan removed member faultless admitted stepped
  · cases taken

theorem Sound.call (sound : state.Sound) (taken : state.take .call = some next) : next.Sound := by
  dsimp only [take] at taken
  split at taken
  · rename_i idle
    cases taken
    have stands := sound.stands
    simp only [Stands, idle] at stands
    refine ⟨sound.inside, sound.bound, sound.opened, sound.steady, ?_, ?_, sound.orphan,
      sound.gone, ?_, ?_⟩
    · intro present path listed installed
      obtain ⟨remaining, task⟩ := sound.transition present path listed installed
      rw [idle] at task
      cases task
    · intro _ _ path _
      exact List.mem_singleton_self _
    · intro removed
      rw [stands] at removed
      cases removed
    · exact ⟨fun _ listed => listed, .inl stands⟩
  · cases taken

theorem Sound.removeDisk (sound : state.Sound) (quiet : state.quiet = true)
    (clear : ∀ path ∈ state.paths, (state.sessions path).persist.inFlight = false)
    (taken : state.take .removeDisk = some next) : next.Sound := by
  dsimp only [take] at taken
  split at taken
  · rename_i running
    cases taken
    have present : state.diskDelete.isRemoved = false := by
      rw [running]
      rfl
    have begun : state.task ≠ .idle := by
      intro idle
      have stands := sound.stands
      simp only [Stands, idle, running] at stands
      cases stands
    refine ⟨sound.inside, sound.bound, sound.opened, ?_, ?_, ?_, ?_, ?_, ?_, ?_⟩
    · intro present
      cases present
    · intro present
      cases present
    · intro _ present
      cases present
    · intro _ path listed
      exact (sound.steady present path listed).orphan (clear path listed)
    · intro _ path inside
      exact if_pos inside
    · intro _ path listed
      dsimp only
      rcases PersistTask.rests_of_not_inFlight (clear path listed) with idle | waiting
      · have persist := (sound.steady present path listed).persist
        rw [Session.Materializes, idle] at persist
        refine ⟨_, sound.heard begun present path listed, ?_⟩
        have file := persist.1.file
        rw [sound.bound path listed] at file
        exact file
      · have rests := (rests_of_quiet quiet listed).2
        simp only [Session.persistReady, waiting] at rests
        obtain ⟨remaining, task⟩ := sound.transition present path listed (by simpa using rests)
        have stands := sound.stands
        simp only [Stands, task] at stands
        exact (stands.2.2.2 present).2
    · have stands := sound.stands
      unfold Stands at *
      dsimp only
      cases task : state.task with
      | deletingDisk path remaining =>
          simp only [task] at stands ⊢
          refine ⟨stands.1, stands.2.1, ?_, ?_⟩
          · intro present
            cases present
          · intro present
            cases present
      | finishing =>
          intro present
          cases present
      | preparing path prepare remaining => simp [task, running] at stands
      | _ => simp_all
  · cases taken

theorem Sound.rejectDelete (sound : state.Sound) (taken : state.take .rejectDelete = some next) :
    next.Sound := by
  dsimp only [take] at taken
  split at taken
  · rename_i running
    cases taken
    have present : state.diskDelete.isRemoved = false := by
      rw [running]
      rfl
    refine ⟨sound.inside, sound.bound, sound.opened, fun _ => sound.steady present,
      fun _ => sound.transition present, fun begun _ => sound.heard begun present, nofun, nofun,
      nofun, ?_⟩
    have stands := sound.stands
    unfold Stands at *
    dsimp only
    cases task : state.task with
    | deletingDisk path remaining =>
        simp only [task] at stands ⊢
        exact ⟨stands.1, stands.2.1, nofun, fun _ => stands.2.2.2 present⟩
    | finishing => exact nofun
    | preparing path prepare remaining => simp [task, running] at stands
    | _ => simp_all
  · cases taken

theorem Sound.settleDelete (sound : state.Sound) (taken : state.take .settleDelete = some next) :
    next.Sound := by
  dsimp only [take] at taken
  split at taken
  · rename_i effected
    cases taken
    have removed : state.diskDelete.isRemoved = true := by
      rw [effected]
      rfl
    refine ⟨sound.inside, sound.bound, sound.opened, nofun, nofun, fun _ => nofun,
      fun _ => sound.orphan removed, fun _ => sound.gone removed, fun _ => sound.kept removed, ?_⟩
    have stands := sound.stands
    unfold Stands at *
    dsimp only
    cases task : state.task with
    | deletingDisk path remaining =>
        simp only [task] at stands ⊢
        exact ⟨stands.1, stands.2.1, nofun, nofun⟩
    | finishing => exact nofun
    | preparing path prepare remaining => simp [task, effected] at stands
    | _ => simp_all
  · cases taken

/-- The call goes on to another await, and at most starts the removal. -/
theorem Sound.standAt (sound : state.Sound) {task : DeleteTask} {diskDelete : DiskDelete}
    (same : diskDelete.isRemoved = state.diskDelete.isRemoved) (begun : state.task ≠ .idle)
    (untouched : state.diskDelete.isRemoved = false → ∀ path ∈ state.paths,
      (state.sessions path).pathTransition = false)
    (stands : ({ state with task := task, diskDelete := diskDelete } : Deleting R).Stands) :
    ({ state with task := task, diskDelete := diskDelete } : Deleting R).Sound := by
  refine ⟨sound.inside, sound.bound, sound.opened, ?_, ?_, ?_, ?_, ?_, ?_, stands⟩
  · exact fun present => sound.steady (same.symm.trans present)
  · intro present path listed installed
    have clear := untouched (same.symm.trans present) path listed
    rw [clear] at installed
    cases installed
  · exact fun _ present => sound.heard begun (same.symm.trans present)
  · exact fun removed => sound.orphan (same.symm.trans removed)
  · exact fun removed => sound.gone (same.symm.trans removed)
  · exact fun removed => sound.kept (same.symm.trans removed)

/-- The call goes on after it has changed a session, but not its document. -/
theorem Sound.resume (sound : state.Sound) {path : JsString} {session : Session R}
    {task : DeleteTask} {diskDelete : DiskDelete} (member : path ∈ state.paths)
    (same : diskDelete.isRemoved = state.diskDelete.isRemoved) (begun : state.task ≠ .idle)
    (bound : session.filePath = path) (opened : session.opened = true)
    (doc : session.doc = (state.sessions path).doc)
    (steady : state.diskDelete.isRemoved = false → session.Steady state.disk)
    (orphan : state.diskDelete.isRemoved = true → session.Orphan)
    (transition : state.diskDelete.isRemoved = false → session.pathTransition = true →
      ∃ remaining, task = .deletingDisk path remaining)
    (untouched : state.diskDelete.isRemoved = false → ∀ other ∈ state.paths, other ≠ path →
      (state.sessions other).pathTransition = false)
    (stands : ({ state with
      sessions := Function.update state.sessions path session
      task := task
      diskDelete := diskDelete } : Deleting R).Stands) :
    ({ state with
      sessions := Function.update state.sessions path session
      task := task
      diskDelete := diskDelete } : Deleting R).Sound := by
  have self : Function.update state.sessions path session path = session :=
    Function.update_self ..
  refine ⟨sound.inside, ?_, ?_, ?_, ?_, ?_, ?_, ?_, ?_, stands⟩
  · intro other listed
    dsimp only
    by_cases here : other = path
    · subst here
      rw [self]
      exact bound
    · rw [Function.update_of_ne here]
      exact sound.bound other listed
  · intro other listed
    dsimp only
    by_cases here : other = path
    · subst here
      rw [self]
      exact opened
    · rw [Function.update_of_ne here]
      exact sound.opened other listed
  · intro present other listed
    dsimp only
    by_cases here : other = path
    · subst here
      rw [self]
      exact steady (same.symm.trans present)
    · rw [Function.update_of_ne here]
      exact sound.steady (same.symm.trans present) other listed
  · intro present other listed installed
    dsimp only at installed
    by_cases here : other = path
    · subst here
      rw [self] at installed
      exact transition (same.symm.trans present) installed
    · rw [Function.update_of_ne here] at installed
      rw [untouched (same.symm.trans present) other listed here] at installed
      cases installed
  · intro _ present other listed
    dsimp only
    have heard := sound.heard begun (same.symm.trans present) other listed
    by_cases here : other = path
    · subst here
      rw [self, Session.currentContent, doc]
      exact heard
    · rw [Function.update_of_ne here]
      exact heard
  · intro removed other listed
    dsimp only
    by_cases here : other = path
    · subst here
      rw [self]
      exact orphan (same.symm.trans removed)
    · rw [Function.update_of_ne here]
      exact sound.orphan (same.symm.trans removed) other listed
  · exact fun removed => sound.gone (same.symm.trans removed)
  · exact fun removed => sound.kept (same.symm.trans removed)

/-- Only the markdown files matter. -/
theorem Sound.withDisk (sound : state.Sound) {disk : Disk} (same : disk.files = state.disk.files) :
    ({ state with disk := disk } : Deleting R).Sound := by
  refine ⟨sound.inside, sound.bound, sound.opened, ?_, sound.transition, sound.heard, sound.orphan,
    ?_, sound.kept, ?_⟩
  · intro present path listed
    exact (sound.steady present path listed).congr (congrFun same _)
  · intro removed path inside
    exact (congrFun same path).trans (sound.gone removed path inside)
  · have stands := sound.stands
    unfold Stands at *
    dsimp only
    rw [same]
    exact stands

/-- Unless a session awaits the removal, no transition is installed before it. -/
theorem Sound.untouched (sound : state.Sound) {path : JsString}
    (elsewhere : ∀ remaining, state.task ≠ .deletingDisk path remaining)
    (present : state.diskDelete.isRemoved = false) (listed : path ∈ state.paths) :
    (state.sessions path).pathTransition = false := by
  by_contra installed
  obtain ⟨remaining, task⟩ := sound.transition present path listed (by simpa using installed)
  exact elsewhere remaining task

/-- The loop takes the next path, or ends. -/
theorem Sound.proceed_next (sound : state.Sound) {remaining : List JsString}
    (task : state.task = .next remaining) (proceeded : state.proceed = some next) :
    next.Sound := by
  have stands := sound.stands
  simp only [Stands, task] at stands
  obtain ⟨listed, place⟩ := stands
  have begun : state.task ≠ .idle := by simp [task]
  have untouched : state.diskDelete.isRemoved = false → ∀ path ∈ state.paths,
      (state.sessions path).pathTransition = false :=
    fun present path member => sound.untouched (by simp [task]) present member
  cases remaining with
  | nil =>
      simp only [Deleting.proceed, task] at proceeded
      split at proceeded
      · rename_i idle
        cases proceeded
        rw [deleteOnDisk, if_pos idle]
        refine sound.standAt ?_ begun untouched nofun
        rw [idle]
        rfl
      · rename_i started
        cases proceeded
        exact sound.standAt rfl begun untouched (place.resolve_left started)
  | cons path remaining =>
      simp only [Deleting.proceed, task] at proceeded
      have member := listed path List.mem_cons_self
      have rest : ∀ path ∈ remaining, path ∈ state.paths :=
        fun other later => listed other (List.mem_cons_of_mem _ later)
      split at proceeded
      · rename_i deleted
        cases proceeded
        rcases place with idle | settled
        · have live := (sound.steady (by rw [idle]; rfl) path member).live
          rw [deleted] at live
          cases live
        · rw [deleteOnDisk, if_neg (by simp [settled])]
          exact sound.standAt rfl begun untouched ⟨rest, settled⟩
      · rename_i live
        cases proceeded
        refine sound.standAt rfl begun untouched ⟨member, rest, ?_⟩
        rcases place with idle | settled
        · exact .inl ⟨idle, trivial, trivial⟩
        · exact .inr ⟨settled, by simpa [Session.GoesThrough] using live⟩

/-- The preparation of a session goes on, and then its transition is installed. -/
theorem Sound.proceed_preparing (sound : state.Sound) {path : JsString} {prepare : PrepareTask}
    {remaining : List JsString} (task : state.task = .preparing path prepare remaining)
    (unchecked : state.diskDelete.isRemoved = true → prepare = .opening →
      (state.sessions path).check = .idle)
    (proceeded : state.proceed = some next) : next.Sound := by
  have stands := sound.stands
  simp only [Stands, task] at stands
  obtain ⟨member, rest, place⟩ := stands
  have begun : state.task ≠ .idle := by simp [task]
  have untouched : state.diskDelete.isRemoved = false → ∀ other ∈ state.paths, other ≠ path →
      (state.sessions other).pathTransition = false :=
    fun present other listed _ => sound.untouched (by simp [task]) present listed
  have self : ∀ session : Session R, Function.update state.sessions path session path = session :=
    fun _ => Function.update_self ..
  have prepares : ∀ prepared : Session R × PrepareTask,
      (state.sessions path).prepareStep prepare = some prepared →
      ((state.put path prepared.1).standAt (.preparing path prepared.2 remaining)).Sound := by
    intro prepared moved
    rcases place with ⟨idle, quiesced, calm⟩ | ⟨settled, through⟩
    · have present : state.diskDelete.isRemoved = false := by rw [idle]; rfl
      have steady := sound.steady present path member
      obtain ⟨kept, quiet, doc, bound⟩ := steady.prepareStep quiesced moved
      refine sound.resume member rfl begun
        ((congrArg Session.Binding.filePath bound).trans (sound.bound path member))
        ((congrArg Session.Binding.opened bound).trans (sound.opened path member)) doc
        (fun _ => kept) (fun removed => ?_) (fun _ installed => ?_) untouched ?_
      · rw [present] at removed
        cases removed
      · have elsewhere : ∀ later, state.task ≠ .deletingDisk path later := by simp [task]
        have clear := sound.untouched elsewhere present member
        have installed := (congrArg Session.Binding.pathTransition bound).symm.trans installed
        exact absurd (clear.symm.trans installed) (by decide)
      · refine ⟨member, rest, .inl ⟨idle, ?_⟩⟩
        dsimp only
        rw [self]
        exact ⟨quiet, Session.Calm.prepareStep steady.live steady.faultless quiesced calm moved⟩
    · have removed : state.diskDelete.isRemoved = true := by rw [settled]; rfl
      have orphan := sound.orphan removed path member
      obtain ⟨same, goes⟩ := Session.prepareStep_goesThrough orphan.faultless through
        (unchecked removed) moved
      have kept : prepared.1.Orphan ∧ prepared.1.filePath = path ∧ prepared.1.opened = true ∧
          prepared.1.doc = (state.sessions path).doc := by
        rcases same with same | same
        · rw [same]
          exact ⟨orphan, sound.bound path member, sound.opened path member, rfl⟩
        · rw [same]
          exact ⟨orphan.stopWatching, sound.bound path member, sound.opened path member, rfl⟩
      refine sound.resume member rfl begun kept.2.1 kept.2.2.1 kept.2.2.2
        (fun present => ?_) (fun _ => kept.1) (fun present _ => ?_) untouched ?_
      · rw [removed] at present
        cases present
      · rw [removed] at present
        cases present
      · refine ⟨member, rest, .inr ⟨settled, ?_⟩⟩
        dsimp only
        rw [self]
        exact goes
  cases prepare with
  | failed =>
      rcases place with ⟨_, quiesced, _⟩ | ⟨_, through⟩
      · exact quiesced.elim
      · exact through.elim
  | prepared =>
      simp only [Deleting.proceed, task] at proceeded
      cases proceeded
      rcases place with ⟨idle, quiesced, calm⟩ | ⟨settled, _⟩
      · have present : state.diskDelete.isRemoved = false := by rw [idle]; rfl
        have steady := sound.steady present path member
        have installed := steady.setTransition true
        have paused : ((state.sessions path).setTransition true).Paused :=
          installed.paused rfl quiesced (.inl calm)
        have unstarted : (state.put path ((state.sessions path).setTransition true)).diskDelete =
            .idle := idle
        rw [deleteOnDisk, if_pos unstarted]
        refine sound.resume member (by rw [idle]; rfl) begun (sound.bound path member)
          (sound.opened path member) rfl (fun _ => installed) (fun removed => ?_)
          (fun _ _ => ⟨remaining, rfl⟩) untouched ?_
        · rw [present] at removed
          cases removed
        · refine ⟨member, rest, nofun, fun _ => ?_⟩
          dsimp only
          rw [self]
          refine ⟨paused, _, sound.heard begun present path member, ?_⟩
          have persist := steady.persist
          rw [Session.Materializes, calm] at persist
          have file := persist.1.file
          rw [sound.bound path member] at file
          exact file
      · have removed : state.diskDelete.isRemoved = true := by rw [settled]; rfl
        have started : (state.put path ((state.sessions path).setTransition true)).diskDelete =
            .settled := settled
        rw [deleteOnDisk, if_neg (by simp [started])]
        refine sound.resume member rfl begun (sound.bound path member) (sound.opened path member)
          rfl (fun present => ?_) (fun _ => (sound.orphan removed path member).setTransition true)
          (fun _ _ => ⟨remaining, rfl⟩) untouched ⟨member, rest, by simp [started], ?_⟩
        · rw [removed] at present
          cases present
        · simp [started, DiskDelete.isRemoved]
  | opening | awaitCheck | flushing =>
      simp only [Deleting.proceed, task] at proceeded
      obtain ⟨prepared, moved, rfl⟩ := Option.map_eq_some_iff.mp proceeded
      exact prepares prepared moved

/-- The call goes on once the removal has settled. -/
theorem Sound.proceed_removed (sound : state.Sound)
    (place : state.task ≠ .idle ∧ (∀ remaining, state.task ≠ .next remaining) ∧
      ∀ path prepare remaining, state.task ≠ .preparing path prepare remaining)
    (proceeded : state.proceed = some next) : next.Sound := by
  obtain ⟨begun, between, unprepared⟩ := place
  have stands := sound.stands
  unfold Stands at stands
  cases task : state.task with
  | idle => exact absurd task begun
  | next remaining => exact absurd task (between remaining)
  | preparing path prepare remaining => exact absurd task (unprepared path prepare remaining)
  | done => simp [Deleting.proceed, task] at proceeded
  | failed => simp [Deleting.proceed, task] at proceeded
  | missing remaining =>
      simp only [task] at stands
      simp only [Deleting.proceed, task, stands.2] at proceeded
      cases proceeded
      refine sound.standAt rfl begun (fun present => ?_) ⟨stands.1, .inr stands.2⟩
      rw [stands.2] at present
      cases present
  | deletingDisk path remaining =>
      simp only [task] at stands
      obtain ⟨member, rest, _, held⟩ := stands
      simp only [Deleting.proceed, task] at proceeded
      split at proceeded
      · rename_i settled
        cases proceeded
        refine sound.standAt rfl begun (fun present => ?_) ⟨member, rest, settled⟩
        rw [settled] at present
        cases present
      · rename_i rejected
        cases proceeded
        have present : state.diskDelete.isRemoved = false := by rw [rejected]; rfl
        have steady := sound.steady present path member
        rw [if_neg (by simp [steady.live])]
        refine sound.resume member rfl begun (sound.bound path member) (sound.opened path member)
          rfl (fun _ => steady.startWatching.setTransition false) (fun removed => ?_)
          (fun _ => nofun) (fun _ other listed different => ?_) rejected
        · rw [present] at removed
          cases removed
        · refine sound.untouched ?_ present listed
          intro later same
          rw [task] at same
          cases same
          exact different rfl
      all_goals cases proceeded
  | deletingState path remaining =>
      simp only [task] at stands
      obtain ⟨member, rest, settled⟩ := stands
      have removed : state.diskDelete.isRemoved = true := by rw [settled]; rfl
      simp only [Deleting.proceed, task] at proceeded
      cases proceeded
      have bound := Session.frame_markDeleted (state.sessions path)
      have doc : (state.sessions path).markDeleted.doc = (state.sessions path).doc := by
        unfold Session.markDeleted
        split <;> rfl
      have marked : ((state.put path (state.sessions path).markDeleted).standAt
          (.release path remaining)).Sound := by
        refine sound.resume member rfl begun
          ((congrArg (·.toBinding.filePath) bound).trans (sound.bound path member))
          ((congrArg (·.toBinding.opened) bound).trans (sound.opened path member)) doc
          (fun present => ?_) (fun _ => (sound.orphan removed path member).markDeleted)
          (fun present => ?_) (fun present => ?_) ⟨member, rest, settled⟩
        all_goals
          rw [removed] at present
          cases present
      refine marked.withDisk ?_
      dsimp only [Deleting.put, Deleting.standAt]
      split <;> rfl
  | release path remaining =>
      simp only [task] at stands
      obtain ⟨member, rest, settled⟩ := stands
      have removed : state.diskDelete.isRemoved = true := by rw [settled]; rfl
      simp only [Deleting.proceed, task] at proceeded
      cases proceeded
      refine sound.resume member rfl begun (sound.bound path member) (sound.opened path member)
        rfl (fun present => ?_) (fun _ => (sound.orphan removed path member).setTransition false)
        (fun _ => nofun) (fun present => ?_) ⟨rest, .inr settled⟩
      · rw [removed] at present
        cases present
      · rw [removed] at present
        cases present
  | finishing =>
      simp only [Deleting.proceed, task] at proceeded
      split at proceeded
      · rename_i settled
        cases proceeded
        refine sound.standAt rfl begun (fun present => ?_) settled
        rw [settled] at present
        cases present
      · rename_i rejected
        cases proceeded
        exact sound.standAt rfl begun
          (fun present path listed => sound.untouched (by simp [task]) present listed) rejected
      all_goals cases proceeded

/-- No step changes the folder or which sessions are concerned. -/
theorem fixed_of_step {label : DeleteLabel R}
    (stepped : (deleteMachine R).step state label = some next) :
    next.paths = state.paths ∧ next.folder = state.folder := by
  have started (state : Deleting R) : state.deleteOnDisk.paths = state.paths ∧
      state.deleteOnDisk.folder = state.folder := by
    unfold deleteOnDisk
    split <;> exact ⟨rfl, rfl⟩
  dsimp only [deleteMachine] at stepped
  split at stepped
  · cases label with
    | session path label =>
        dsimp only [take] at stepped
        split at stepped
        · obtain ⟨site, _, rfl⟩ := Option.map_eq_some_iff.mp stepped
          unfold note
          split <;> exact ⟨rfl, rfl⟩
        · cases stepped
    | proceed =>
        dsimp only [take, Deleting.proceed] at stepped
        split at stepped
        all_goals try split at stepped
        all_goals try (cases stepped; done)
        all_goals try
          (obtain ⟨prepared, _, rfl⟩ := Option.map_eq_some_iff.mp stepped; exact ⟨rfl, rfl⟩)
        all_goals
          cases stepped
          first | exact ⟨rfl, rfl⟩ | exact started _
    | call | removeDisk | rejectDelete | settleDelete =>
        dsimp only [take] at stepped
        split at stepped <;> cases stepped
        exact ⟨rfl, rfl⟩
  · cases stepped

end Deleting

variable {R : Runtime}

/-- No I/O of the step fails. -/
def DeleteLabel.Faultless : DeleteLabel R → Prop
  | .session _ label => label.Faultless
  | _ => True

namespace Deleting

/-- A persist records a hash while a check of its session holds a content with
another one. -/
def OvertakesCheck (state : Deleting R) : DeleteLabel R → Prop
  | .session path label => Kb1Daemon.OvertakesCheck ⟨state.sessions path, state.disk⟩ label
  | _ => False

/-- The folder is removed while a persist of a session under it is in flight. -/
def RemovesUnderPersist (state : Deleting R) : DeleteLabel R → Prop
  | .removeDisk => ∃ path ∈ state.paths, (state.sessions path).persist.inFlight = true
  | _ => False

/-- The turn of a session whose file is gone comes while a check of it is in
flight. -/
def PreparesUnderCheck (state : Deleting R) : DeleteLabel R → Prop
  | .proceed =>
      match state.task with
      | .preparing path .opening _ =>
          state.diskDelete.isRemoved = true ∧ (state.sessions path).check.isIdle = false
      | _ => False
  | _ => False

/-- The call has not begun, and every session it concerns is open and at rest,
with its text in its file. -/
structure Ready (state : Deleting R) : Prop where
  task : state.task = .idle
  diskDelete : state.diskDelete = .idle
  inside : ∀ path ∈ state.paths, isUnder state.folder path = true
  bound : ∀ path ∈ state.paths, (state.sessions path).filePath = path
  clean : ∀ path ∈ state.paths, Site.Clean ⟨state.sessions path, state.disk⟩
  saved : ∀ path ∈ state.paths, (state.sessions path).Saved state.disk

variable {state next : Deleting R}

theorem Ready.sound (ready : state.Ready) : state.Sound := by
  have present : state.diskDelete.isRemoved ≠ true := by simp [ready.diskDelete, DiskDelete.isRemoved]
  refine ⟨ready.inside, ready.bound, fun path listed => (ready.clean path listed).own.opened,
    fun _ path listed => (ready.saved path listed).steady (ready.clean path listed), ?_, ?_,
    fun removed => absurd removed present, fun removed => absurd removed present,
    fun removed => absurd removed present, ?_⟩
  · intro _ path listed installed
    have clear := (ready.clean path listed).own.settled
    exact absurd (clear.symm.trans installed) (by decide)
  · exact fun begun => absurd ready.task begun
  · rw [Stands, ready.task]
    exact ready.diskDelete

end Deleting

/-- **Steps of a deletion.** A step without an I/O failure that overtakes no check,
does not remove the folder under a persist and does not prepare a session under a
check keeps the invariant of the deletion. -/
theorem deleteMachine_step {state next : Deleting R} {label : DeleteLabel R}
    (faultless : label.Faultless) (order : ¬ state.OvertakesCheck label)
    (clear : ¬ state.RemovesUnderPersist label) (unchecked : ¬ state.PreparesUnderCheck label)
    (stepped : (deleteMachine R).step state label = some next) (sound : state.Sound) :
    next.Sound := by
  dsimp only [deleteMachine] at stepped
  split at stepped
  · rename_i admitted
    rw [Bool.or_eq_true] at admitted
    cases label with
    | session path label => exact sound.session faultless order admitted stepped
    | call => exact sound.call stepped
    | removeDisk =>
        refine sound.removeDisk (by simpa [Deleting.runsAtOnce] using admitted) ?_ stepped
        intro path listed
        by_contra flying
        exact clear ⟨path, listed, by simpa using flying⟩
    | rejectDelete => exact sound.rejectDelete stepped
    | settleDelete => exact sound.settleDelete stepped
    | proceed =>
        cases task : state.task with
        | next remaining => exact sound.proceed_next task stepped
        | preparing path prepare remaining =>
            refine sound.proceed_preparing task ?_ stepped
            rintro removed rfl
            by_contra busy
            refine unchecked ?_
            simp only [Deleting.PreparesUnderCheck, task]
            refine ⟨removed, ?_⟩
            by_contra idle
            exact busy (CheckTask.isIdle_iff.mp (by simpa using idle))
        | idle => simp [Deleting.take, Deleting.proceed, task] at stepped
        | _ => exact sound.proceed_removed (by simp [task]) stepped
  · cases stepped

/-- Nothing typed is lost by the removal and the call reports what it did: once the
folder is gone, its last state holds for every session a text that its document
has had since the call began, the call has not failed, and no file is there again. -/
structure KeepsTyped (source target : Deleting R) : Prop where
  saved : target.diskDelete.isRemoved = true → ∀ path ∈ source.paths,
    ∃ content ∈ target.texts path, target.trash path = some content
  returns : target.diskDelete.isRemoved = true → target.task ≠ .failed
  gone : target.diskDelete.isRemoved = true →
    ∀ path, isUnder source.folder path = true → target.disk.files path = none

/-- **A folder delete keeps what was typed.** Whatever the sessions, the updates
and the order of steps, without I/O failures and outside writers: if no persist
overtakes a check, no persist of a session under the folder is in flight when the
folder is removed, and no check of a later session is in flight when its turn
comes, then the deletion keeps what was typed, does not fail after the removal and
leaves no file behind. -/
theorem delete_keeps_typed {source target : Deleting R} {labels : List (DeleteLabel R)}
    (ready : source.Ready)
    (run : (deleteMachine R).Run (fun state label => label.Faultless ∧
      ¬ state.OvertakesCheck label ∧ ¬ state.RemovesUnderPersist label ∧
      ¬ state.PreparesUnderCheck label) source labels target) :
    KeepsTyped source target := by
  have keep : ∀ (state : Deleting R) label next, label.Faultless ∧
      ¬ state.OvertakesCheck label ∧ ¬ state.RemovesUnderPersist label ∧
      ¬ state.PreparesUnderCheck label →
      (deleteMachine R).step state label = some next →
      state.Sound ∧ state.paths = source.paths ∧ state.folder = source.folder →
      next.Sound ∧ next.paths = source.paths ∧ next.folder = source.folder := by
    intro state label next allowed stepped held
    obtain ⟨paths, folder⟩ := Deleting.fixed_of_step stepped
    exact ⟨deleteMachine_step allowed.1 allowed.2.1 allowed.2.2.1 allowed.2.2.2 stepped held.1,
      paths.trans held.2.1, folder.trans held.2.2⟩
  obtain ⟨sound, paths, folder⟩ := run.invariant keep ⟨ready.sound, rfl, rfl⟩
  refine ⟨?_, ?_, ?_⟩
  · rw [← paths]
    exact sound.kept
  · intro removed failed
    have stands := sound.stands
    simp only [Deleting.Stands, failed] at stands
    rw [stands] at removed
    cases removed
  · rw [← folder]
    exact sound.gone

instance DeleteLabel.decidableFaultless (label : DeleteLabel R) : Decidable label.Faultless := by
  unfold DeleteLabel.Faultless
  cases label <;> infer_instance

instance Deleting.decidableOvertakesCheck (state : Deleting R) (label : DeleteLabel R) :
    Decidable (state.OvertakesCheck label) := by
  unfold Deleting.OvertakesCheck
  cases label <;> infer_instance

instance Deleting.decidableRemovesUnderPersist (state : Deleting R) (label : DeleteLabel R) :
    Decidable (state.RemovesUnderPersist label) := by
  unfold Deleting.RemovesUnderPersist
  cases label <;> infer_instance

instance Deleting.decidablePreparesUnderCheck (state : Deleting R) (label : DeleteLabel R) :
    Decidable (state.PreparesUnderCheck label) := by
  unfold Deleting.PreparesUnderCheck
  split
  · split <;> infer_instance
  · infer_instance

namespace Replica

/-- The files `f/a` and `f/b`, each holding `a` and open in a session, and the
deletion of the folder `f`. -/
def deletedFolder : Deleting replicaRuntime where
  folder := [102]
  paths := [[102, 47, 97], [102, 47, 98]]
  sessions := fun path =>
    ((Session.fresh replicaRuntime path path (some (115 :: path)) none).hydrate [97]
      (some none)).finishOpen
  disk :=
    { files := fun path => if path ∈ [[102, 47, 97], [102, 47, 98]] then some [97] else none
      sidecars := fun _ => none }
  task := .idle
  diskDelete := .idle
  trash := fun _ => none
  texts := fun _ => []

theorem deletedFolder_ready : deletedFolder.Ready where
  task := rfl
  diskDelete := rfl
  inside := by decide
  bound _ _ := rfl
  clean := by
    intro path listed
    have file : deletedFolder.disk.files path = some [97] := if_pos listed
    exact ⟨⟨rfl, rfl, rfl, ⟨⟨[97], file, rfl⟩, rfl⟩, trivial⟩, rfl, rfl, rfl, rfl, rfl⟩
  saved := by
    intro path listed
    have file : deletedFolder.disk.files path = some [97] := if_pos listed
    exact ⟨file, rfl, rfl, nofun⟩

/-- The call continues a number of times. -/
def proceeds (steps : Nat) : List (DeleteLabel replicaRuntime) := List.replicate steps .proceed

end Replica

/-- The session of `f/b` has an unsaved update when the call begins. The session of
`f/a` is clean, so the folder is removed before `f/b` is saved: the removed folder
lacks the text. -/
theorem typed_text_not_in_trash :
    ∃ (labels : List (DeleteLabel replicaRuntime)) (target : Deleting replicaRuntime),
      Replica.deletedFolder.Ready ∧
      (deleteMachine replicaRuntime).Run (fun _ label => label.Faultless) Replica.deletedFolder
        labels target ∧
      ¬ KeepsTyped Replica.deletedFolder target := by
  obtain ⟨target, run, seen⟩ : ∃ target, (deleteMachine replicaRuntime).Run
      (fun _ label => label.Faultless) Replica.deletedFolder
      ([.session [102, 47, 98] (.update (.insert 1 1 [98]) none), .call] ++
        Replica.proceeds 4 ++ [.removeDisk]) target ∧
      (target.diskDelete, target.trash [102, 47, 98], target.texts [102, 47, 98]) =
        (.removed, some [97], [[97, 98]]) :=
    Machine.evaluate_view (by decide +kernel)
  simp only [Prod.mk.injEq] at seen
  obtain ⟨removed, trash, texts⟩ := seen
  refine ⟨_, target, Replica.deletedFolder_ready, run, ?_⟩
  intro keeps
  obtain ⟨content, heard, held⟩ :=
    keeps.saved (by rw [removed]; rfl) [102, 47, 98] (by decide)
  rw [texts, List.mem_singleton] at heard
  rw [trash, heard] at held
  cases held

/-- An unsaved update of the first session is saved before the folder is removed,
and the deletion runs to its end. -/
theorem delete_keeps_typed_first :
    ∃ (labels : List (DeleteLabel replicaRuntime)) (target : Deleting replicaRuntime),
      (deleteMachine replicaRuntime).Run (fun state label => label.Faultless ∧
        ¬ state.OvertakesCheck label ∧ ¬ state.RemovesUnderPersist label ∧
        ¬ state.PreparesUnderCheck label) Replica.deletedFolder labels target ∧
      target.task = .done ∧ target.trash [102, 47, 97] = some [97, 98] ∧
      KeepsTyped Replica.deletedFolder target := by
  obtain ⟨target, run, seen⟩ : ∃ target, (deleteMachine replicaRuntime).Run
      (fun state label => label.Faultless ∧ ¬ state.OvertakesCheck label ∧
        ¬ state.RemovesUnderPersist label ∧ ¬ state.PreparesUnderCheck label)
      Replica.deletedFolder
      ([.session [102, 47, 97] (.update (.insert 1 1 [98]) none), .call] ++
        Replica.proceeds 2 ++ List.replicate 7 (.session [102, 47, 97] (.persist .ok)) ++
        Replica.proceeds 3 ++ [.removeDisk, .settleDelete] ++ Replica.proceeds 11) target ∧
      (target.task, target.trash [102, 47, 97]) = (.done, some [97, 98]) :=
    Machine.evaluate_view (by decide +kernel)
  obtain ⟨finished, trash⟩ := Prod.mk.inj seen
  exact ⟨_, target, run, finished, trash, delete_keeps_typed Replica.deletedFolder_ready run⟩

end Kb1Daemon
