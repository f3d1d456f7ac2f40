import Kb1Daemon.Manager.Transition

/-! # Moving files under live sessions

`moveSessionSubtree` prepares every session under a folder, starts one rename of
the folder and lets each session complete its own rebinding once the rename has
settled; `moveSession` does the same for one file. A session is named here by
the path it had when the call began.

A completion installs the path transition for which the persist loop waits, but
only after all sessions are prepared. An update that reaches a prepared session
before that starts a persist against the old path, and the rename may run under
it. When it does not, a move loses nothing (`move_loses_nothing`); when it does,
the persist creates the old file again (`moved_file_created_again`). A file moved
alone cannot be caught this way.
-/

namespace Kb1Daemon

/-- Where the move of one session stands. -/
inductive MoveTask where
  | waiting
  | preparing (task : PrepareTask)
  /-- The completion is queued behind the session's path mutations. -/
  | installing
  /-- The path transition is installed and awaits the rename. -/
  | transition
  | writeMarkdown (rebinding : Rebinding)
  | writeSnapshot (rebinding : Rebinding) (snapshot : PendingSnapshot)
  | removeState (rebinding : Rebinding)
  /-- The completion has resolved and the transition is to be cleared. -/
  | release
  | moved
  | failed

/-- Where the shared rename stands. -/
inductive DiskMove where
  | unscheduled
  | scheduled
  /-- The rename has taken effect and its promise is still pending. -/
  | renamed
  | settled
  | rejected
  deriving DecidableEq, Repr

/-- Where the manager's call stands. -/
inductive MoveStage where
  | idle
  | preparing
  | moving
  | done
  | failed
  deriving DecidableEq, Repr

/-- A session and where its move stands. -/
structure Mover (R : Runtime) where
  session : Session R
  task : MoveTask

namespace MoveTask

def isPrepared : MoveTask → Bool
  | .preparing .prepared => true
  | _ => false

def isMoved : MoveTask → Bool
  | .moved => true
  | _ => false

def isFailed : MoveTask → Bool
  | .preparing .failed | .failed => true
  | _ => false

end MoveTask

namespace Session

variable {R : Runtime}

theorem Paused.rebind {session : Session R} (paused : session.Paused)
    (path stateFilePath : JsString) : (session.rebind path stateFilePath).Paused := by
  obtain ⟨opened, live, transition, unwatched, check, persist, loop, outcomes, recovered, error⟩ :=
    paused
  exact ⟨opened, live, transition, unwatched, check, persist, loop, outcomes, recovered, error⟩

/-- A paused session is steady again once the file it has been moved to holds its
text and is recorded. -/
theorem Paused.recordMove {session : Session R} {disk : Disk} {rebinding : Rebinding}
    (paused : session.Paused)
    (current : session.persist = .idle → rebinding.content = session.currentContent)
    (file : disk.files session.filePath = some rebinding.content) :
    (session.recordMove rebinding).Steady disk := by
  obtain ⟨opened, live, _, _, check, persist, loop, outcomes, recovered, error⟩ := paused
  refine ⟨opened, live, ?_, ?_, loop, outcomes, recovered, error⟩
  · rcases persist with idle | waiting
    · have task : (session.recordMove rebinding).persist = .idle := idle
      have text := current idle
      rw [Materializes, task]
      refine ⟨⟨?_, ?_, ?_⟩, rfl⟩
      · exact file.trans (congrArg some text)
      · exact congrArg some text
      · exact congrArg (fun content => some (R.hashContent content)) text
    · have task : (session.recordMove rebinding).persist = .awaitTransition := waiting
      rw [Materializes, task]
      exact ⟨rebinding.content, ⟨file, rfl, rfl⟩, rfl⟩
  · have task : (session.recordMove rebinding).check = .idle := check
    rw [CheckAgrees, task]
    trivial

end Session

namespace Mover

variable {R : Runtime}

/-- The move of a session continues up to its next await. -/
def step (mover : Mover R) (target stateFilePath : JsString) (diskMove : DiskMove) (disk : Disk) :
    Option (Mover R × Disk) :=
  let session := mover.session
  match mover.task with
  | .waiting | .moved | .failed => none
  | .preparing task =>
      (session.prepareStep task).map fun prepared => (⟨prepared.1, .preparing prepared.2⟩, disk)
  | .installing =>
      if session.deleted then some (⟨session, .failed⟩, disk)
      else some (⟨session.setTransition true, .transition⟩, disk)
  | .transition =>
      match diskMove with
      | .settled =>
          if session.deleted then some (⟨session.setTransition false, .failed⟩, disk)
          else
            some (⟨session.rebind target stateFilePath,
              .writeMarkdown ⟨session.eventPath, session.stateFilePath, session.currentContent⟩⟩,
              disk)
      | .rejected =>
          let watching := if session.deleted then session else session.startWatching
          some (⟨watching.setTransition false, .failed⟩, disk)
      | .unscheduled | .scheduled | .renamed => none
  | .writeMarkdown rebinding =>
      some (⟨session, .writeSnapshot rebinding (session.snapshot (R.hashContent rebinding.content))⟩,
        disk.write session.filePath rebinding.content)
  | .writeSnapshot rebinding snapshot =>
      some (⟨session, .removeState rebinding⟩, disk.writeSnapshot snapshot)
  | .removeState rebinding =>
      some (⟨session.recordMove rebinding, .release⟩, disk.removeState session rebinding)
  | .release => some (⟨session.setTransition false, .moved⟩, disk)

/-- The move of the session has a continuation due that waits for no I/O. -/
def ready (mover : Mover R) (diskMove : DiskMove) : Bool :=
  match mover.task with
  | .preparing task => (mover.session.prepareStep task).isSome
  | .installing | .release => true
  | .transition =>
      match diskMove with
      | .settled | .rejected => true
      | .unscheduled | .scheduled | .renamed => false
  | .waiting | .writeMarkdown _ | .writeSnapshot _ _ | .removeState _ | .moved | .failed => false

end Mover

/-- A move of a folder or a file with the live sessions it concerns. -/
structure Moving (R : Runtime) where
  move : Move
  toStateFilePath : JsString → JsString
  paths : List JsString
  movers : JsString → Mover R
  disk : Disk
  stage : MoveStage
  diskMove : DiskMove

/-- The steps of a move and of the sessions it concerns. -/
inductive MoveLabel (R : Runtime) where
  /-- A session takes a step, or a client reaches it. -/
  | session (path : JsString) (label : SessionLabel R)
  /-- The manager's call begins. -/
  | call
  /-- The move of a session continues. -/
  | move (path : JsString)
  /-- The manager's call continues. -/
  | proceed
  /-- The rename takes effect. -/
  | rename
  /-- The rename is refused or fails. -/
  | rejectMove
  /-- The promise of the rename settles. -/
  | settleMove

namespace Moving

variable {R : Runtime}

/-- Every session's move satisfies a test. -/
def allTasks (state : Moving R) (test : MoveTask → Bool) : Bool :=
  state.paths.all fun path => test (state.movers path).task

/-- Some session's move has failed. -/
def anyFailed (state : Moving R) : Bool :=
  state.paths.any fun path => (state.movers path).task.isFailed

/-- The manager's call has a continuation due. -/
def callReady (state : Moving R) : Bool :=
  match state.stage with
  | .preparing => state.anyFailed || state.allTasks MoveTask.isPrepared
  | .moving => state.anyFailed || state.diskMove == .settled && state.allTasks MoveTask.isMoved
  | .idle | .done | .failed => false

/-- No continuation is due: the next thing to happen is an I/O completion, a timer
or a message. -/
def quiet (state : Moving R) : Bool :=
  (state.paths.all fun path => !(state.movers path).ready state.diskMove &&
    !(state.movers path).session.persistReady) && !state.callReady

/-- The step is a continuation that waits for no I/O. -/
def runsAtOnce (state : Moving R) : MoveLabel R → Bool
  | .session path (.persist _) => (state.movers path).session.persistReady
  | .move path => (state.movers path).ready state.diskMove
  | .proceed => true
  | _ => false

/-- Put a session and the disk back. -/
def put (state : Moving R) (path : JsString) (mover : Mover R) (disk : Disk) : Moving R :=
  { state with movers := Function.update state.movers path mover, disk := disk }

/-- Let every session's move stand at a task. -/
def standAt (state : Moving R) (task : MoveTask) : Moving R :=
  { state with movers := fun path => ⟨(state.movers path).session, task⟩ }

/-- The manager's call continues: when all sessions are prepared the rename and
the completions start, when all have moved the call returns. -/
def proceed (state : Moving R) : Option (Moving R) :=
  match state.stage with
  | .preparing =>
      if state.anyFailed then some { state with stage := .failed }
      else if state.allTasks MoveTask.isPrepared then
        some { state.standAt .installing with stage := .moving, diskMove := .scheduled }
      else none
  | .moving =>
      if state.anyFailed then some { state with stage := .failed }
      else if state.diskMove = .settled ∧ state.allTasks MoveTask.isMoved then
        some { state with stage := .done }
      else none
  | .idle | .done | .failed => none

/-- What a step does. -/
def take (state : Moving R) : MoveLabel R → Option (Moving R)
  | .session path label =>
      if path ∈ state.paths then
        ((sessionMachine R).step ⟨(state.movers path).session, state.disk⟩ label).map fun site =>
          state.put path ⟨site.session, (state.movers path).task⟩ site.disk
      else none
  | .call =>
      if state.stage = .idle then
        some { state.standAt (.preparing .opening) with stage := .preparing }
      else none
  | .move path =>
      if path ∈ state.paths then
        ((state.movers path).step (state.move.target path)
          (state.toStateFilePath (state.move.target path)) state.diskMove state.disk).map
            fun moved => state.put path moved.1 moved.2
      else none
  | .proceed => state.proceed
  | .rename =>
      if state.diskMove = .scheduled ∧ state.move.apart then
        some { state with disk := state.disk.rename state.move, diskMove := .renamed }
      else none
  | .rejectMove =>
      if state.diskMove = .scheduled then some { state with diskMove := .rejected } else none
  | .settleMove =>
      if state.diskMove = .renamed then some { state with diskMove := .settled } else none

end Moving

/-- The machine of a move. Continuations run before anything else happens. -/
def moveMachine (R : Runtime) : Machine (Moving R) (MoveLabel R) where
  step state label := if state.quiet || state.runsAtOnce label then state.take label else none

namespace Mover

variable {R : Runtime}

/-- The session, its file and its path as the move goes on. -/
def Agrees (mover : Mover R) (move : Move) (path : JsString) (diskMove : DiskMove) (disk : Disk) :
    Prop :=
  match mover.task with
  | .waiting =>
      diskMove = .unscheduled ∧ mover.session.filePath = path ∧
        mover.session.pathTransition = false ∧ mover.session.Steady disk
  | .preparing task =>
      diskMove = .unscheduled ∧ mover.session.filePath = path ∧
        mover.session.pathTransition = false ∧ mover.session.Steady disk ∧
        mover.session.Quiesced task
  | .installing =>
      diskMove = .scheduled ∧ mover.session.filePath = path ∧
        mover.session.pathTransition = false ∧ mover.session.Steady disk ∧
        mover.session.Quiesced .prepared
  | .transition =>
      mover.session.filePath = path ∧ mover.session.pathTransition = true ∧
        match diskMove with
        | .unscheduled => False
        | .scheduled | .rejected =>
            mover.session.Steady disk ∧ mover.session.Quiesced .prepared
        | .renamed | .settled => mover.session.Paused
  | .writeMarkdown rebinding =>
      diskMove = .settled ∧ mover.session.filePath = move.target path ∧ mover.session.Paused ∧
        (mover.session.persist = .idle → rebinding.content = mover.session.currentContent)
  | .writeSnapshot rebinding _ | .removeState rebinding =>
      diskMove = .settled ∧ mover.session.filePath = move.target path ∧ mover.session.Paused ∧
        (mover.session.persist = .idle → rebinding.content = mover.session.currentContent) ∧
        disk.files mover.session.filePath = some rebinding.content
  | .release =>
      diskMove = .settled ∧ mover.session.filePath = move.target path ∧
        mover.session.pathTransition = true ∧ mover.session.Steady disk
  | .moved =>
      diskMove = .settled ∧ mover.session.filePath = move.target path ∧
        mover.session.pathTransition = false ∧ mover.session.Steady disk
  | .failed =>
      diskMove = .rejected ∧ mover.session.filePath = path ∧
        mover.session.pathTransition = false ∧ mover.session.Steady disk

variable {mover : Mover R} {move : Move} {path : JsString} {diskMove : DiskMove} {disk : Disk}

theorem Agrees.filePath (agrees : mover.Agrees move path diskMove disk) :
    mover.session.filePath = path ∨
      mover.session.filePath = move.target path ∧ diskMove = .settled := by
  unfold Agrees at agrees
  split at agrees
  case h_4 => exact .inl agrees.1
  case h_1 | h_2 | h_3 | h_10 => exact .inl agrees.2.1
  all_goals exact .inr ⟨agrees.2.1, agrees.1⟩

theorem Agrees.live (agrees : mover.Agrees move path diskMove disk) :
    mover.session.deleted = false := by
  unfold Agrees at agrees
  split at agrees
  case h_1 => exact agrees.2.2.2.live
  case h_2 | h_3 => exact agrees.2.2.2.1.live
  case h_4 =>
    split at agrees
    · exact agrees.2.2.elim
    · exact agrees.2.2.1.live
    · exact agrees.2.2.1.live
    · exact agrees.2.2.live
    · exact agrees.2.2.live
  case h_5 => exact agrees.2.2.1.live
  case h_6 | h_7 => exact agrees.2.2.1.live
  all_goals exact agrees.2.2.2.live

/-- Only the session's own file matters. -/
theorem Agrees.congr {other : Disk} (agrees : mover.Agrees move path diskMove disk)
    (same : other.files mover.session.filePath = disk.files mover.session.filePath) :
    mover.Agrees move path diskMove other := by
  unfold Agrees at *
  split at agrees
  case h_1 =>
    obtain ⟨disk, file, transition, steady⟩ := agrees
    exact ⟨disk, file, transition, steady.congr same⟩
  case h_2 | h_3 =>
    obtain ⟨disk, file, transition, steady, quiesced⟩ := agrees
    exact ⟨disk, file, transition, steady.congr same, quiesced⟩
  case h_4 =>
    obtain ⟨file, transition, phase⟩ := agrees
    refine ⟨file, transition, ?_⟩
    split at phase
    · exact phase
    · exact ⟨phase.1.congr same, phase.2⟩
    · exact ⟨phase.1.congr same, phase.2⟩
    · exact phase
    · exact phase
  case h_5 => exact agrees
  case h_6 | h_7 =>
    obtain ⟨disk, file, paused, current, written⟩ := agrees
    exact ⟨disk, file, paused, current, same.trans written⟩
  all_goals
    obtain ⟨disk, file, transition, steady⟩ := agrees
    exact ⟨disk, file, transition, steady.congr same⟩

/-- A step of a session leaves its move where it stands. -/
theorem Agrees.session {site : Site R} {label : SessionLabel R} (faultless : label.Faultless)
    (order : ¬ OvertakesCheck ⟨mover.session, disk⟩ label)
    (running : label.transacts = true → mover.session.persist ≠ .settle)
    (stepped : (sessionMachine R).step ⟨mover.session, disk⟩ label = some site)
    (agrees : mover.Agrees move path diskMove disk) :
    (⟨site.session, mover.task⟩ : Mover R).Agrees move path diskMove site.disk ∧
      site.session.doc = SessionLabel.change mover.session.doc label ∧
      ∀ other, other ≠ mover.session.filePath → site.disk.files other = disk.files other := by
  have bound := sessionMachine_binding stepped
  have filePath : site.session.filePath = mover.session.filePath :=
    congrArg Session.Binding.filePath bound
  have transition : site.session.pathTransition = mover.session.pathTransition :=
    congrArg Session.Binding.pathTransition bound
  have steadily : mover.session.Steady disk → site.session.Steady site.disk ∧
      site.session.doc = SessionLabel.change mover.session.doc label ∧
      ∀ other, other ≠ mover.session.filePath → site.disk.files other = disk.files other := by
    intro steady
    obtain ⟨kept, doc, _, frame⟩ :=
      sessionMachine_step_steady faultless order running stepped steady
    exact ⟨kept, doc, frame⟩
  have pausing : mover.session.Paused → site.session.Paused ∧
      site.session.doc = SessionLabel.change mover.session.doc label ∧ site.disk = disk ∧
      (site.session.persist = .idle → mover.session.persist = .idle ∧
        site.session.currentContent = mover.session.currentContent) :=
    fun paused => sessionMachine_step_paused faultless stepped paused
  unfold Agrees at *
  cases task : mover.task with
  | waiting =>
      simp only [task] at agrees ⊢
      obtain ⟨unscheduled, file, settled, steady⟩ := agrees
      obtain ⟨kept, doc, frame⟩ := steadily steady
      exact ⟨⟨unscheduled, filePath.trans file, transition.trans settled, kept⟩, doc, frame⟩
  | preparing prepare =>
      simp only [task] at agrees ⊢
      obtain ⟨unscheduled, file, settled, steady, quiesced⟩ := agrees
      obtain ⟨_, doc, frame⟩ := steadily steady
      exact ⟨⟨unscheduled, filePath.trans file, transition.trans settled,
        steady_quiesced_step faultless order running stepped steady quiesced⟩, doc, frame⟩
  | installing =>
      simp only [task] at agrees ⊢
      obtain ⟨scheduled, file, settled, steady, quiesced⟩ := agrees
      obtain ⟨_, doc, frame⟩ := steadily steady
      exact ⟨⟨scheduled, filePath.trans file, transition.trans settled,
        steady_quiesced_step faultless order running stepped steady quiesced⟩, doc, frame⟩
  | transition =>
      simp only [task] at agrees ⊢
      obtain ⟨file, installed, phase⟩ := agrees
      cases diskMove with
      | unscheduled => exact phase.elim
      | scheduled | rejected =>
          obtain ⟨steady, quiesced⟩ := phase
          obtain ⟨_, doc, frame⟩ := steadily steady
          exact ⟨⟨filePath.trans file, transition.trans installed,
            steady_quiesced_step faultless order running stepped steady quiesced⟩, doc, frame⟩
      | renamed | settled =>
          obtain ⟨kept, doc, same, _⟩ := pausing phase
          exact ⟨⟨filePath.trans file, transition.trans installed, kept⟩, doc,
            fun other _ => congrArg (Disk.files · other) same⟩
  | writeMarkdown rebinding =>
      simp only [task] at agrees ⊢
      obtain ⟨settled, file, paused, current⟩ := agrees
      obtain ⟨kept, doc, same, rests⟩ := pausing paused
      refine ⟨⟨settled, filePath.trans file, kept, ?_⟩, doc,
        fun other _ => congrArg (Disk.files · other) same⟩
      intro idle
      obtain ⟨before, text⟩ := rests idle
      exact (current before).trans text.symm
  | writeSnapshot rebinding snapshot =>
      simp only [task] at agrees ⊢
      obtain ⟨settled, file, paused, current, written⟩ := agrees
      obtain ⟨kept, doc, same, rests⟩ := pausing paused
      refine ⟨⟨settled, filePath.trans file, kept, ?_, ?_⟩, doc,
        fun other _ => congrArg (Disk.files · other) same⟩
      · intro idle
        obtain ⟨before, text⟩ := rests idle
        exact (current before).trans text.symm
      · rw [same, filePath]
        exact written
  | removeState rebinding =>
      simp only [task] at agrees ⊢
      obtain ⟨settled, file, paused, current, written⟩ := agrees
      obtain ⟨kept, doc, same, rests⟩ := pausing paused
      refine ⟨⟨settled, filePath.trans file, kept, ?_, ?_⟩, doc,
        fun other _ => congrArg (Disk.files · other) same⟩
      · intro idle
        obtain ⟨before, text⟩ := rests idle
        exact (current before).trans text.symm
      · rw [same, filePath]
        exact written
  | release =>
      simp only [task] at agrees ⊢
      obtain ⟨settled, file, installed, steady⟩ := agrees
      obtain ⟨kept, doc, frame⟩ := steadily steady
      exact ⟨⟨settled, filePath.trans file, transition.trans installed, kept⟩, doc, frame⟩
  | moved =>
      simp only [task] at agrees ⊢
      obtain ⟨settled, file, cleared, steady⟩ := agrees
      obtain ⟨kept, doc, frame⟩ := steadily steady
      exact ⟨⟨settled, filePath.trans file, transition.trans cleared, kept⟩, doc, frame⟩
  | failed =>
      simp only [task] at agrees ⊢
      obtain ⟨rejected, file, cleared, steady⟩ := agrees
      obtain ⟨kept, doc, frame⟩ := steadily steady
      exact ⟨⟨rejected, filePath.trans file, transition.trans cleared, kept⟩, doc, frame⟩

/-- A step of a session's move leads to where the move then stands, writes at most
the session's own file and keeps the document. -/
theorem Agrees.step {next : Mover R} {nextDisk : Disk} {stateFilePath : JsString}
    (agrees : mover.Agrees move path diskMove disk)
    (stepped : mover.step (move.target path) stateFilePath diskMove disk = some (next, nextDisk)) :
    next.Agrees move path diskMove nextDisk ∧ next.session.doc = mover.session.doc ∧
      ∀ other, other ≠ mover.session.filePath → nextDisk.files other = disk.files other := by
  have live := agrees.live
  unfold Agrees at agrees
  unfold Mover.step at stepped
  dsimp only at stepped
  cases task : mover.task with
  | waiting => simp [task] at stepped
  | moved => simp [task] at stepped
  | failed => simp [task] at stepped
  | preparing prepare =>
      simp only [task] at agrees stepped
      obtain ⟨unscheduled, file, settled, steady, quiesced⟩ := agrees
      obtain ⟨⟨session, nextTask⟩, moved, same⟩ := Option.map_eq_some_iff.mp stepped
      cases same
      obtain ⟨kept, quiet, doc, bound⟩ := steady.prepareStep quiesced moved
      have filePath := congrArg Session.Binding.filePath bound
      have transition := congrArg Session.Binding.pathTransition bound
      exact ⟨⟨unscheduled, filePath.trans file, transition.trans settled, kept, quiet⟩, doc,
        fun _ _ => rfl⟩
  | installing =>
      simp only [task] at agrees stepped
      obtain ⟨rfl, file, _, steady, quiesced⟩ := agrees
      rw [if_neg (by simp [live])] at stepped
      cases stepped
      exact ⟨⟨file, rfl, steady.setTransition true, quiesced⟩, rfl, fun _ _ => rfl⟩
  | transition =>
      simp only [task] at agrees stepped
      obtain ⟨file, installed, phase⟩ := agrees
      cases diskMove with
      | unscheduled => exact phase.elim
      | scheduled => cases stepped
      | renamed => cases stepped
      | settled =>
          dsimp only at phase stepped
          rw [if_neg (by simp [live])] at stepped
          cases stepped
          exact ⟨⟨rfl, rfl, phase.rebind _ _, fun _ => rfl⟩, rfl, fun _ _ => rfl⟩
      | rejected =>
          dsimp only at phase stepped
          rw [if_neg (by simp [live])] at stepped
          cases stepped
          exact ⟨⟨rfl, file, rfl, phase.1.startWatching.setTransition false⟩, rfl,
            fun _ _ => rfl⟩
  | writeMarkdown rebinding =>
      simp only [task] at agrees stepped
      obtain ⟨settled, file, paused, current⟩ := agrees
      cases stepped
      refine ⟨⟨settled, file, paused, current, disk.write_files_self _ _⟩, rfl, ?_⟩
      intro other different
      exact disk.write_files_of_ne _ different
  | writeSnapshot rebinding snapshot =>
      simp only [task] at agrees stepped
      obtain ⟨settled, file, paused, current, written⟩ := agrees
      cases stepped
      refine ⟨⟨settled, file, paused, current, ?_⟩, rfl,
        fun other _ => by rw [Disk.writeSnapshot_files]⟩
      rw [Disk.writeSnapshot_files]
      exact written
  | removeState rebinding =>
      simp only [task] at agrees stepped
      obtain ⟨settled, file, paused, current, written⟩ := agrees
      cases stepped
      refine ⟨⟨settled, file, paused.transition, paused.recordMove current ?_⟩, rfl,
        fun other _ => by rw [Disk.removeState_files]⟩
      rw [Disk.removeState_files]
      exact written
  | release =>
      simp only [task] at agrees stepped
      obtain ⟨settled, file, _, steady⟩ := agrees
      cases stepped
      exact ⟨⟨settled, file, rfl, steady.setTransition false⟩, rfl, fun _ _ => rfl⟩

/-- Once the rename has taken effect, a session still bound to its old path is
paused. -/
theorem Agrees.paused (agrees : mover.Agrees move path diskMove disk)
    (renamed : diskMove = .renamed ∨ diskMove = .settled)
    (old : mover.session.filePath = path) (away : move.target path ≠ path) :
    mover.session.Paused := by
  unfold Agrees at agrees
  split at agrees
  case h_1 | h_2 | h_3 | h_10 =>
    rw [agrees.1] at renamed
    simp at renamed
  case h_4 =>
    rcases renamed with rfl | rfl
    · exact agrees.2.2
    · exact agrees.2.2
  all_goals exact absurd (agrees.2.1.symm.trans old) away

/-- Before the rename is scheduled a session works at its old path. -/
theorem Agrees.unscheduled (agrees : mover.Agrees move path .unscheduled disk) :
    mover.session.filePath = path ∧ mover.session.pathTransition = false ∧
      mover.session.Steady disk ∧ mover.task.isFailed = false := by
  unfold Agrees at agrees
  cases task : mover.task with
  | waiting =>
      simp only [task] at agrees
      exact ⟨agrees.2.1, agrees.2.2.1, agrees.2.2.2, rfl⟩
  | preparing prepare =>
      simp only [task] at agrees
      refine ⟨agrees.2.1, agrees.2.2.1, agrees.2.2.2.1, ?_⟩
      cases prepare with
      | failed => exact agrees.2.2.2.2.elim
      | _ => rfl
  | _ => simp [task] at agrees

/-- While the rename is scheduled every session is being installed or waits for
it. -/
theorem Agrees.scheduled (agrees : mover.Agrees move path .scheduled disk) :
    mover.task = .installing ∨
      mover.task = .transition ∧ mover.session.filePath = path ∧
        mover.session.pathTransition = true ∧ mover.session.Steady disk ∧
        mover.session.Quiesced .prepared := by
  unfold Agrees at agrees
  cases task : mover.task with
  | installing => exact .inl rfl
  | transition =>
      simp only [task] at agrees
      exact .inr ⟨rfl, agrees⟩
  | _ => simp [task] at agrees

/-- Between the rename and the settling of its promise every session waits. -/
theorem Agrees.renamed (agrees : mover.Agrees move path .renamed disk) :
    mover.task = .transition ∧ mover.session.filePath = path ∧
      mover.session.pathTransition = true ∧ mover.session.Paused := by
  unfold Agrees at agrees
  cases task : mover.task with
  | transition =>
      simp only [task] at agrees
      exact ⟨rfl, agrees⟩
  | _ => simp [task] at agrees

/-- A step of a session's move writes no markdown file but the one at the new
path. -/
theorem Agrees.step_files {next : Mover R} {nextDisk : Disk} {stateFilePath other : JsString}
    (agrees : mover.Agrees move path diskMove disk)
    (stepped : mover.step (move.target path) stateFilePath diskMove disk = some (next, nextDisk))
    (elsewhere : other ≠ move.target path) : nextDisk.files other = disk.files other := by
  unfold Agrees at agrees
  unfold Mover.step at stepped
  dsimp only at stepped
  split at stepped
  case h_7 rebinding task =>
    simp only [task] at agrees
    cases stepped
    rw [agrees.2.1]
    exact disk.write_files_of_ne _ elsewhere
  case h_4 =>
    obtain ⟨_, _, same⟩ := Option.map_eq_some_iff.mp stepped
    cases same
    rfl
  case h_5 => split at stepped <;> cases stepped <;> rfl
  case h_6 =>
    split at stepped
    · split at stepped <;> cases stepped <;> rfl
    all_goals cases stepped
    rfl
  all_goals cases stepped
  all_goals first
    | rfl
    | rw [Disk.writeSnapshot_files]
    | rw [Disk.removeState_files]

theorem preparing_of_step {next : Mover R} {nextDisk : Disk} {target stateFilePath : JsString}
    {task : PrepareTask}
    (stepped : mover.step target stateFilePath diskMove disk = some (next, nextDisk))
    (prepares : next.task = .preparing task) : ∃ earlier, mover.task = .preparing earlier := by
  unfold Mover.step at stepped
  dsimp only at stepped
  split at stepped
  case h_4 earlier started => exact ⟨earlier, started⟩
  case h_5 => split at stepped <;> cases stepped <;> cases prepares
  case h_6 =>
    split at stepped
    · split at stepped <;> cases stepped <;> cases prepares
    all_goals cases stepped
    cases prepares
  all_goals cases stepped
  all_goals cases prepares

/-- The persist loop of a session that is moved alone rests from the end of its
flush on, or waits for the transition. -/
def Calm (mover : Mover R) : Prop :=
  match mover.task with
  | .preparing task => mover.session.Calm task
  | .installing => mover.session.persist = .idle
  | .transition => mover.session.persist = .idle ∨ mover.session.persist = .awaitTransition
  | _ => True

theorem Agrees.faultless (agrees : mover.Agrees move path diskMove disk) :
    mover.session.Faultless := by
  unfold Agrees at agrees
  split at agrees
  case h_1 => exact agrees.2.2.2.faultless
  case h_2 | h_3 => exact agrees.2.2.2.1.faultless
  case h_4 =>
    split at agrees
    · exact agrees.2.2.elim
    · exact agrees.2.2.1.faultless
    · exact agrees.2.2.1.faultless
    · exact agrees.2.2.faultless
    · exact agrees.2.2.faultless
  case h_5 => exact agrees.2.2.1.faultless
  case h_6 | h_7 => exact agrees.2.2.1.faultless
  all_goals exact agrees.2.2.2.faultless

/-- A session that waits calmly for the rename is paused. -/
theorem Agrees.paused_of_calm (agrees : mover.Agrees move path diskMove disk)
    (calm : mover.Calm) (waits : mover.task = .transition) : mover.session.Paused := by
  unfold Agrees at agrees
  unfold Calm at calm
  simp only [waits] at agrees calm
  obtain ⟨_, installed, phase⟩ := agrees
  cases diskMove with
  | unscheduled => exact phase.elim
  | scheduled | rejected => exact phase.1.paused installed phase.2 calm
  | renamed | settled => exact phase

theorem Calm.session {site : Site R} {label : SessionLabel R} (faultless : label.Faultless)
    (calm : mover.Calm) (agrees : mover.Agrees move path diskMove disk)
    (due : label.transacts = true →
      mover.ready diskMove = false ∧ mover.task ≠ .preparing .prepared)
    (stepped : (sessionMachine R).step ⟨mover.session, disk⟩ label = some site) :
    (⟨site.session, mover.task⟩ : Mover R).Calm := by
  have live := agrees.live
  have safe := agrees.faultless
  cases task : mover.task with
  | preparing prepare =>
      unfold Calm at calm
      simp only [task] at calm
      refine Session.Calm.step calm live safe ?_ stepped
      intro transacts
      obtain ⟨waits, unprepared⟩ := due transacts
      simp only [ready, task] at waits
      refine ⟨by simpa using waits, ?_⟩
      rintro rfl
      exact unprepared task
  | installing =>
      unfold Calm at calm
      simp only [task] at calm
      have rests : mover.session.Calm .prepared := calm
      refine Session.Calm.step rests live safe ?_ stepped
      intro transacts
      obtain ⟨waits, _⟩ := due transacts
      simp [ready, task] at waits
  | transition =>
      have paused := agrees.paused_of_calm calm task
      exact (sessionMachine_step_paused faultless stepped paused).1.persist
  | _ => trivial

theorem Calm.step {next : Mover R} {nextDisk : Disk} {stateFilePath : JsString}
    (calm : mover.Calm) (agrees : mover.Agrees move path diskMove disk)
    (stepped : mover.step (move.target path) stateFilePath diskMove disk = some (next, nextDisk)) :
    next.Calm := by
  have live := agrees.live
  have safe := agrees.faultless
  unfold Agrees at agrees
  unfold Calm at calm
  unfold Mover.step at stepped
  dsimp only at stepped
  cases task : mover.task with
  | preparing prepare =>
      simp only [task] at agrees calm stepped
      obtain ⟨⟨session, nextTask⟩, moved, same⟩ := Option.map_eq_some_iff.mp stepped
      cases same
      exact Session.Calm.prepareStep live safe agrees.2.2.2.2 calm moved
  | installing =>
      simp only [task] at calm stepped
      rw [if_neg (by simp [live])] at stepped
      cases stepped
      exact .inl calm
  | transition =>
      simp only [task] at stepped
      split at stepped
      · split at stepped <;> cases stepped <;> trivial
      all_goals cases stepped
      trivial
  | waiting | moved | failed => simp [task] at stepped
  | writeMarkdown | writeSnapshot | removeState | release =>
      simp only [task] at stepped
      cases stepped
      trivial

end Mover

namespace Moving

variable {R : Runtime}

/-- What holds in every state of a move. -/
structure Sound (state : Moving R) : Prop where
  covered : ∀ path ∈ state.paths, state.move.covers path = true
  movers : ∀ path ∈ state.paths,
    (state.movers path).Agrees state.move path state.diskMove state.disk
  early : state.stage = .idle ∨ state.stage = .preparing → state.diskMove = .unscheduled
  preparing : ∀ path ∈ state.paths, ∀ task, (state.movers path).task = .preparing task →
    state.stage = .preparing
  done : state.stage = .done → state.diskMove = .settled ∧
    ∀ path ∈ state.paths, (state.movers path).task = .moved
  gone : state.diskMove = .renamed ∨ state.diskMove = .settled →
    state.move.apart = true ∧ ∀ path, state.move.covers path = true → state.disk.files path = none
  alone : state.paths.length = 1 → ∀ path ∈ state.paths, (state.movers path).Calm

variable {state next : Moving R} {path other : JsString}

/-- Different sessions are bound to different files. -/
theorem Sound.filePath_ne (sound : state.Sound) (member : path ∈ state.paths)
    (present : other ∈ state.paths) (different : other ≠ path) :
    (state.movers other).session.filePath ≠ (state.movers path).session.filePath := by
  have here := sound.covered path member
  have there := sound.covered other present
  rcases (sound.movers path member).filePath with old | ⟨new, settled⟩
  · rcases (sound.movers other present).filePath with oldOther | ⟨newOther, settledOther⟩
    · rw [old, oldOther]
      exact different
    · rw [old, newOther]
      rintro same
      have moved := Move.not_covers_target (sound.gone (.inr settledOther)).1 there
      rw [same, here] at moved
      cases moved
  · rcases (sound.movers other present).filePath with oldOther | ⟨newOther, _⟩
    · rw [new, oldOther]
      rintro same
      have moved := Move.not_covers_target (sound.gone (.inr settled)).1 here
      rw [← same, there] at moved
      cases moved
    · rw [new, newOther]
      intro same
      exact different (Move.target_injective there here same)

/-- What one session's step does to the whole: the session agrees with its move
again, only its own file may have changed, and no file has come back at an old
path. -/
theorem Sound.put (sound : state.Sound) (member : path ∈ state.paths) {mover : Mover R}
    {disk : Disk} (agrees : mover.Agrees state.move path state.diskMove disk)
    (frame : ∀ other, other ≠ (state.movers path).session.filePath →
      disk.files other = state.disk.files other)
    (absent : state.diskMove = .renamed ∨ state.diskMove = .settled →
      ∀ other, state.move.covers other = true → disk.files other = state.disk.files other)
    (preparing : ∀ task, mover.task = .preparing task → state.stage = .preparing)
    (moved : (state.movers path).task = .moved → mover.task = .moved)
    (calm : state.paths.length = 1 → mover.Calm) : (state.put path mover disk).Sound := by
  have others : ∀ other ∈ state.paths, other ≠ path →
      (state.put path mover disk).movers other = state.movers other :=
    fun other _ different => Function.update_of_ne different ..
  have self : (state.put path mover disk).movers path = mover := Function.update_self ..
  refine ⟨sound.covered, ?_, sound.early, ?_, ?_, ?_, ?_⟩
  · intro other present
    by_cases same : other = path
    · subst same
      rw [self]
      exact agrees
    · rw [others other present same]
      exact (sound.movers other present).congr
        (frame _ (sound.filePath_ne member present same))
  · intro other present task
    by_cases same : other = path
    · subst same
      rw [self]
      exact preparing task
    · rw [others other present same]
      exact sound.preparing other present task
  · intro finished
    refine ⟨(sound.done finished).1, ?_⟩
    intro other present
    have before := (sound.done finished).2 other present
    by_cases same : other = path
    · subst same
      rw [self]
      exact moved before
    · rw [others other present same]
      exact before
  · intro renamed
    refine ⟨(sound.gone renamed).1, ?_⟩
    intro other covered
    exact (absent renamed other covered).trans ((sound.gone renamed).2 other covered)
  · intro single other present
    by_cases same : other = path
    · subst same
      rw [self]
      exact calm single
    · rw [others other present same]
      exact sound.alone single other present

theorem rests_of_quiet (quiet : state.quiet = true) (member : path ∈ state.paths) :
    (state.movers path).ready state.diskMove = false ∧
      (state.movers path).session.persistReady = false := by
  rw [Moving.quiet, Bool.and_eq_true, List.all_eq_true] at quiet
  simpa using quiet.1 path member

theorem callReady_of_quiet (quiet : state.quiet = true) : state.callReady = false := by
  rw [Moving.quiet, Bool.and_eq_true] at quiet
  simpa using quiet.2

/-- No step changes what is moved or which sessions are concerned. -/
theorem fixed_of_step {label : MoveLabel R}
    (stepped : (moveMachine R).step state label = some next) :
    next.paths = state.paths ∧ next.move = state.move := by
  dsimp only [moveMachine] at stepped
  split at stepped
  · cases label with
    | session path label =>
        dsimp only [take] at stepped
        split at stepped
        · obtain ⟨site, _, rfl⟩ := Option.map_eq_some_iff.mp stepped
          exact ⟨rfl, rfl⟩
        · cases stepped
    | move path =>
        dsimp only [take] at stepped
        split at stepped
        · obtain ⟨moved, _, rfl⟩ := Option.map_eq_some_iff.mp stepped
          exact ⟨rfl, rfl⟩
        · cases stepped
    | proceed =>
        dsimp only [take, Moving.proceed] at stepped
        split at stepped
        · split at stepped
          · cases stepped
            exact ⟨rfl, rfl⟩
          · split at stepped <;> cases stepped
            exact ⟨rfl, rfl⟩
        · split at stepped
          · cases stepped
            exact ⟨rfl, rfl⟩
          · split at stepped <;> cases stepped
            exact ⟨rfl, rfl⟩
        all_goals cases stepped
    | call | rename | rejectMove | settleMove =>
        dsimp only [take] at stepped
        split at stepped <;> cases stepped
        exact ⟨rfl, rfl⟩
  · cases stepped

/-- The only session of a move is not left prepared. -/
theorem Sound.unprepared_of_quiet (sound : state.Sound) (quiet : state.quiet = true)
    (single : state.paths.length = 1) (member : path ∈ state.paths) :
    (state.movers path).task ≠ .preparing .prepared := by
  intro task
  have waits := callReady_of_quiet quiet
  obtain ⟨only, listed⟩ := List.length_eq_one_iff.mp single
  rw [listed, List.mem_singleton] at member
  subst member
  have stage := sound.preparing path (by simp [listed]) _ task
  simp [callReady, stage, allTasks, listed, task, MoveTask.isPrepared] at waits

end Moving

variable {R : Runtime}

/-- No I/O of the step fails. -/
def MoveLabel.Faultless : MoveLabel R → Prop
  | .session _ label => label.Faultless
  | _ => True

/-- What a step does to the document of a session. -/
def MoveLabel.change (path : JsString) (doc : R.Doc) : MoveLabel R → R.Doc
  | .session reached label => if reached = path then SessionLabel.change doc label else doc
  | _ => doc

/-- A persist records a hash while a check of its session holds a content with
another one. -/
def Moving.OvertakesCheck (state : Moving R) : MoveLabel R → Prop
  | .session path label =>
      Kb1Daemon.OvertakesCheck ⟨(state.movers path).session, state.disk⟩ label
  | _ => False

/-- A folder is renamed while a persist of one of several sessions under it is in
flight. -/
def Moving.RenamesUnderPersist (state : Moving R) : MoveLabel R → Prop
  | .rename => state.paths.length ≠ 1 ∧
      ∃ path ∈ state.paths, (state.movers path).session.persist.inFlight = true
  | _ => False

namespace Moving

variable {state next : Moving R}

theorem Sound.session (sound : state.Sound) {path : JsString} {label : SessionLabel R}
    (faultless : label.Faultless)
    (order : ¬ Kb1Daemon.OvertakesCheck ⟨(state.movers path).session, state.disk⟩ label)
    (quiet : label.transacts = true → state.quiet = true)
    (taken : state.take (.session path label) = some next) :
    next.Sound ∧ ∀ other ∈ state.paths, (next.movers other).session.doc =
      MoveLabel.change other (state.movers other).session.doc (.session path label) := by
  dsimp only [take] at taken
  split at taken
  · rename_i member
    obtain ⟨site, stepped, rfl⟩ := Option.map_eq_some_iff.mp taken
    have before := sound.movers path member
    have running : label.transacts = true → (state.movers path).session.persist ≠ .settle := by
      intro transacts settling
      have rests := (rests_of_quiet (quiet transacts) member).2
      rw [Session.persistReady, settling] at rests
      cases rests
    obtain ⟨agrees, doc, frame⟩ := before.session faultless order running stepped
    constructor
    · refine sound.put member agrees frame ?_ ?_ id ?_
      · intro renamed other covered
        by_cases own : other = (state.movers path).session.filePath
        · have away : state.move.target path ≠ path := by
            intro same
            have moved := Move.not_covers_target (sound.gone renamed).1 (sound.covered path member)
            rw [same, sound.covered path member] at moved
            cases moved
          have old : (state.movers path).session.filePath = path := by
            rcases before.filePath with old | ⟨new, settled⟩
            · exact old
            · have moved := Move.not_covers_target (sound.gone renamed).1
                (sound.covered path member)
              rw [← new, ← own, covered] at moved
              cases moved
          have same := (sessionMachine_step_paused faultless stepped
            (before.paused renamed old away)).2.2.1
          exact congrArg (Disk.files · other) same
        · exact frame other own
      · exact fun task same => sound.preparing path member task same
      · intro single
        refine (sound.alone single path member).session faultless before ?_ stepped
        intro transacts
        exact ⟨(rests_of_quiet (quiet transacts) member).1,
          sound.unprepared_of_quiet (quiet transacts) single member⟩
    · intro other present
      by_cases same : other = path
      · subst same
        rw [Moving.put, MoveLabel.change, if_pos rfl]
        simpa using doc
      · rw [Moving.put, MoveLabel.change, if_neg (Ne.symm same)]
        simp [Function.update_of_ne same]
  · cases taken

theorem Sound.move (sound : state.Sound) {path : JsString}
    (taken : state.take (.move path) = some next) :
    next.Sound ∧ ∀ other ∈ state.paths,
      (next.movers other).session.doc = (state.movers other).session.doc := by
  dsimp only [take] at taken
  split at taken
  · rename_i member
    obtain ⟨⟨mover, disk⟩, stepped, rfl⟩ := Option.map_eq_some_iff.mp taken
    have before := sound.movers path member
    obtain ⟨agrees, doc, frame⟩ := before.step stepped
    constructor
    · refine sound.put member agrees frame ?_ ?_ ?_ ?_
      · intro renamed other covered
        refine before.step_files stepped ?_
        rintro rfl
        have moved := Move.not_covers_target (sound.gone renamed).1 (sound.covered path member)
        rw [covered] at moved
        cases moved
      · intro task same
        obtain ⟨earlier, started⟩ := Mover.preparing_of_step stepped same
        exact sound.preparing path member earlier started
      · intro moved
        simp [Mover.step, moved] at stepped
      · exact fun single => (sound.alone single path member).step before stepped
    · intro other present
      by_cases same : other = path
      · subst same
        simpa [Moving.put] using doc
      · simp [Moving.put, Function.update_of_ne same]
  · cases taken

theorem Sound.call (sound : state.Sound) (taken : state.take .call = some next) :
    next.Sound ∧ ∀ other ∈ state.paths,
      (next.movers other).session.doc = (state.movers other).session.doc := by
  dsimp only [take] at taken
  split at taken
  · rename_i idle
    cases taken
    have unscheduled := sound.early (.inl idle)
    refine ⟨⟨sound.covered, ?_, fun _ => unscheduled, fun _ _ _ _ => rfl, nofun, sound.gone, ?_⟩,
      fun _ _ => rfl⟩
    · intro path member
      have agrees := sound.movers path member
      rw [unscheduled] at agrees
      obtain ⟨file, settled, steady, _⟩ := agrees.unscheduled
      exact ⟨unscheduled, file, settled, steady, trivial⟩
    · exact fun _ _ _ => trivial
  · cases taken

theorem Sound.proceed (sound : state.Sound) (taken : state.take .proceed = some next) :
    next.Sound ∧ ∀ other ∈ state.paths,
      (next.movers other).session.doc = (state.movers other).session.doc := by
  dsimp only [take, Moving.proceed] at taken
  split at taken
  · rename_i preparing
    have unscheduled := sound.early (.inr preparing)
    have unfailed : state.anyFailed = false := by
      rw [anyFailed, List.any_eq_false]
      intro path member
      have agrees := sound.movers path member
      rw [unscheduled] at agrees
      simpa using agrees.unscheduled.2.2.2
    rw [if_neg (by simp [unfailed])] at taken
    split at taken
    · rename_i ready
      cases taken
      have prepared : ∀ path ∈ state.paths, (state.movers path).task = .preparing .prepared := by
        intro path member
        have test := List.all_eq_true.mp ready path member
        unfold MoveTask.isPrepared at test
        split at test
        · assumption
        · cases test
      refine ⟨⟨sound.covered, ?_, nofun, nofun, nofun, nofun, ?_⟩, fun _ _ => rfl⟩
      · intro path member
        have agrees := sound.movers path member
        simp only [Mover.Agrees, prepared path member] at agrees
        exact ⟨rfl, agrees.2⟩
      · intro single path member
        have calm := sound.alone single path member
        simp only [Mover.Calm, prepared path member] at calm
        exact calm
    · cases taken
  · rename_i moving
    have prepares : ∀ path ∈ state.paths, ∀ task,
        (state.movers path).task ≠ .preparing task := by
      intro path member task same
      have stage := sound.preparing path member task same
      rw [moving] at stage
      cases stage
    split at taken
    · cases taken
      exact ⟨⟨sound.covered, sound.movers, nofun,
        fun path member task same => absurd same (prepares path member task), nofun, sound.gone,
        sound.alone⟩, fun _ _ => rfl⟩
    · split at taken
      · rename_i finished
        cases taken
        refine ⟨⟨sound.covered, sound.movers, nofun,
          fun path member task same => absurd same (prepares path member task), ?_, sound.gone,
          sound.alone⟩, fun _ _ => rfl⟩
        intro _
        refine ⟨finished.1, ?_⟩
        intro path member
        have test := List.all_eq_true.mp finished.2 path member
        unfold MoveTask.isMoved at test
        split at test
        · assumption
        · cases test
      · cases taken
  all_goals cases taken

/-- At the rename every session waits for it. -/
theorem Sound.waits (sound : state.Sound) (quiet : state.quiet = true)
    (scheduled : state.diskMove = .scheduled) {path : JsString} (member : path ∈ state.paths) :
    (state.movers path).task = .transition ∧ (state.movers path).session.filePath = path ∧
      (state.movers path).session.pathTransition = true ∧
      (state.movers path).session.Steady state.disk ∧
      (state.movers path).session.Quiesced .prepared := by
  have agrees := sound.movers path member
  rw [scheduled] at agrees
  rcases agrees.scheduled with installing | waits
  · have rests := (rests_of_quiet quiet member).1
    simp [Mover.ready, installing] at rests
  · exact waits

theorem Sound.rename (sound : state.Sound) (quiet : state.quiet = true)
    (clear : ¬ state.RenamesUnderPersist .rename) (taken : state.take .rename = some next) :
    next.Sound ∧ ∀ other ∈ state.paths,
      (next.movers other).session.doc = (state.movers other).session.doc := by
  dsimp only [take] at taken
  split at taken
  · rename_i allowed
    cases taken
    obtain ⟨scheduled, apart⟩ := allowed
    have waits := fun path (member : path ∈ state.paths) => sound.waits quiet scheduled member
    refine ⟨⟨sound.covered, ?_, ?_, ?_, ?_, ?_, sound.alone⟩, fun _ _ => rfl⟩
    · intro path member
      obtain ⟨task, file, installed, steady, quiesced⟩ := waits path member
      have rests : (state.movers path).session.persist = .idle ∨
          (state.movers path).session.persist = .awaitTransition := by
        by_cases single : state.paths.length = 1
        · have calm := sound.alone single path member
          simpa only [Mover.Calm, task] using calm
        · refine PersistTask.rests_of_not_inFlight ?_
          by_contra flying
          exact clear ⟨single, path, member, by simpa using flying⟩
      simp only [Mover.Agrees, task]
      exact ⟨file, installed, steady.paused installed quiesced rests⟩
    · intro early
      have unscheduled := sound.early early
      rw [scheduled] at unscheduled
      cases unscheduled
    · intro path member task same
      rw [(waits path member).1] at same
      cases same
    · intro finished
      have settled := (sound.done finished).1
      rw [scheduled] at settled
      cases settled
    · exact fun _ => ⟨apart, fun path covered => state.disk.rename_files_of_covers apart covered⟩
  · cases taken

theorem Sound.rejectMove (sound : state.Sound) (quiet : state.quiet = true)
    (taken : state.take .rejectMove = some next) :
    next.Sound ∧ ∀ other ∈ state.paths,
      (next.movers other).session.doc = (state.movers other).session.doc := by
  dsimp only [take] at taken
  split at taken
  · rename_i scheduled
    cases taken
    have waits := fun path (member : path ∈ state.paths) => sound.waits quiet scheduled member
    refine ⟨⟨sound.covered, ?_, ?_, sound.preparing, ?_, nofun, sound.alone⟩, fun _ _ => rfl⟩
    · intro path member
      obtain ⟨task, file, installed, steady, quiesced⟩ := waits path member
      simp only [Mover.Agrees, task]
      exact ⟨file, installed, steady, quiesced⟩
    · intro early
      have unscheduled := sound.early early
      rw [scheduled] at unscheduled
      cases unscheduled
    · intro finished
      have settled := (sound.done finished).1
      rw [scheduled] at settled
      cases settled
  · cases taken

theorem Sound.settleMove (sound : state.Sound) (taken : state.take .settleMove = some next) :
    next.Sound ∧ ∀ other ∈ state.paths,
      (next.movers other).session.doc = (state.movers other).session.doc := by
  dsimp only [take] at taken
  split at taken
  · rename_i renamed
    cases taken
    refine ⟨⟨sound.covered, ?_, ?_, sound.preparing, ?_, fun _ => sound.gone (.inl renamed),
      sound.alone⟩, fun _ _ => rfl⟩
    · intro path member
      have agrees := sound.movers path member
      rw [renamed] at agrees
      obtain ⟨task, file, installed, paused⟩ := agrees.renamed
      simp only [Mover.Agrees, task]
      exact ⟨file, installed, paused⟩
    · intro early
      have unscheduled := sound.early early
      rw [renamed] at unscheduled
      cases unscheduled
    · intro finished
      have settled := (sound.done finished).1
      rw [renamed] at settled
      cases settled
  · cases taken

/-- The call has not begun, and every session it concerns is open and at rest,
with its text in its file. -/
structure Ready (state : Moving R) : Prop where
  stage : state.stage = .idle
  diskMove : state.diskMove = .unscheduled
  covered : ∀ path ∈ state.paths, state.move.covers path = true
  waiting : ∀ path ∈ state.paths, (state.movers path).task = .waiting
  bound : ∀ path ∈ state.paths, (state.movers path).session.filePath = path
  clean : ∀ path ∈ state.paths, Site.Clean ⟨(state.movers path).session, state.disk⟩
  saved : ∀ path ∈ state.paths, (state.movers path).session.Saved state.disk

/-- A session at rest is steady, whatever happens before the call. -/
theorem Ready.sound (ready : state.Ready) : state.Sound := by
  have steady : ∀ path ∈ state.paths, (state.movers path).session.Steady state.disk :=
    fun path member => (ready.saved path member).steady (ready.clean path member)
  refine ⟨ready.covered, ?_, fun _ => ready.diskMove, ?_, ?_, ?_, ?_⟩
  · intro path member
    simp only [Mover.Agrees, ready.waiting path member]
    exact ⟨ready.diskMove, ready.bound path member, (ready.clean path member).own.settled,
      steady path member⟩
  · intro path member task same
    rw [ready.waiting path member] at same
    cases same
  · intro finished
    rw [ready.stage] at finished
    cases finished
  · intro renamed
    rw [ready.diskMove] at renamed
    simp at renamed
  · intro _ path member
    simp only [Mover.Calm, ready.waiting path member]

end Moving

/-- **Steps of a move.** A step without an I/O failure that overtakes no check and
does not rename a folder under a persist keeps the invariant of the move, and only
updates and edits change a document. -/
theorem moveMachine_step {state next : Moving R} {label : MoveLabel R}
    (faultless : label.Faultless) (order : ¬ state.OvertakesCheck label)
    (clear : ¬ state.RenamesUnderPersist label)
    (stepped : (moveMachine R).step state label = some next) (sound : state.Sound) :
    (next.Sound ∧ next.paths = state.paths ∧ next.move = state.move) ∧
      ∀ path ∈ state.paths, (next.movers path).session.doc =
        MoveLabel.change path (state.movers path).session.doc label := by
  have fixed : next.paths = state.paths ∧ next.move = state.move :=
    Moving.fixed_of_step stepped
  dsimp only [moveMachine] at stepped
  split at stepped
  · rename_i admitted
    rw [Bool.or_eq_true] at admitted
    cases label with
    | session path label =>
        obtain ⟨kept, doc⟩ := sound.session faultless order (fun transacts => by
          rcases admitted with quiet | atOnce
          · exact quiet
          · cases label <;> simp [SessionLabel.transacts] at transacts <;>
              simp [Moving.runsAtOnce] at atOnce) stepped
        exact ⟨⟨kept, fixed⟩, doc⟩
    | call =>
        obtain ⟨kept, doc⟩ := sound.call stepped
        exact ⟨⟨kept, fixed⟩, doc⟩
    | move path =>
        obtain ⟨kept, doc⟩ := sound.move stepped
        exact ⟨⟨kept, fixed⟩, doc⟩
    | proceed =>
        obtain ⟨kept, doc⟩ := sound.proceed stepped
        exact ⟨⟨kept, fixed⟩, doc⟩
    | rename =>
        obtain ⟨kept, doc⟩ := sound.rename (by simpa [Moving.runsAtOnce] using admitted) clear
          stepped
        exact ⟨⟨kept, fixed⟩, doc⟩
    | rejectMove =>
        obtain ⟨kept, doc⟩ := sound.rejectMove (by simpa [Moving.runsAtOnce] using admitted) stepped
        exact ⟨⟨kept, fixed⟩, doc⟩
    | settleMove =>
        obtain ⟨kept, doc⟩ := sound.settleMove stepped
        exact ⟨⟨kept, fixed⟩, doc⟩
  · cases stepped

/-- Nothing is lost by a move: every session's file is at its new path and holds
the text last materialized, there is no file at an old path, no session is marked
deleted, and every document is the result of the updates and edits it received. -/
structure MovedWhole (source : Moving R) (labels : List (MoveLabel R)) (target : Moving R) :
    Prop where
  file : ∀ path ∈ source.paths, ∃ content,
    target.disk.files (source.move.target path) = some content ∧
      (target.movers path).session.materialized = some content ∧
      ((target.movers path).session.persist = .idle →
        content = (target.movers path).session.currentContent)
  gone : ∀ path, source.move.covers path = true → target.disk.files path = none
  live : ∀ path ∈ source.paths, (target.movers path).session.deleted = false
  doc : ∀ path ∈ source.paths, (target.movers path).session.doc =
    labels.foldl (MoveLabel.change path) (source.movers path).session.doc

/-- **A move loses nothing.** Whatever the sessions, the updates and the order of
steps, without I/O failures and outside writers: if no persist overtakes a check,
and no persist of one of several sessions is in flight when their folder is
renamed, then a move that succeeds loses nothing. The move of a single session
needs no condition on the rename. -/
theorem move_loses_nothing {source target : Moving R} {labels : List (MoveLabel R)}
    (ready : source.Ready)
    (run : (moveMachine R).Run (fun state label => label.Faultless ∧
      ¬ state.OvertakesCheck label ∧ ¬ state.RenamesUnderPersist label) source labels target)
    (succeeded : target.stage = .done) : MovedWhole source labels target := by
  have keep : ∀ (state : Moving R) label next, label.Faultless ∧
      ¬ state.OvertakesCheck label ∧ ¬ state.RenamesUnderPersist label →
      (moveMachine R).step state label = some next →
      state.Sound ∧ state.paths = source.paths ∧ state.move = source.move →
      next.Sound ∧ next.paths = source.paths ∧ next.move = source.move := by
    intro state label next allowed stepped held
    obtain ⟨⟨sound, paths, move⟩, _⟩ :=
      moveMachine_step allowed.1 allowed.2.1 allowed.2.2 stepped held.1
    exact ⟨sound, paths.trans held.2.1, move.trans held.2.2⟩
  have initial : source.Sound ∧ source.paths = source.paths ∧ source.move = source.move :=
    ⟨ready.sound, rfl, rfl⟩
  obtain ⟨sound, paths, move⟩ := run.invariant keep initial
  obtain ⟨settled, moved⟩ := sound.done succeeded
  refine ⟨?_, ?_, ?_, ?_⟩
  · intro path member
    rw [← paths] at member
    have agrees := sound.movers path member
    simp only [Mover.Agrees, moved path member] at agrees
    obtain ⟨content, file, rest⟩ := agrees.2.2.2.materialized
    rw [agrees.2.1, move] at file
    exact ⟨content, file, rest⟩
  · rw [← move]
    exact (sound.gone (.inr settled)).2
  · intro path member
    rw [← paths] at member
    exact (sound.movers path member).live
  · intro path member
    have follow : ∀ (state : Moving R) label next, label.Faultless ∧
        ¬ state.OvertakesCheck label ∧ ¬ state.RenamesUnderPersist label →
        (moveMachine R).step state label = some next →
        state.Sound ∧ state.paths = source.paths ∧ state.move = source.move →
        (next.movers path).session.doc =
          MoveLabel.change path (state.movers path).session.doc label := by
      intro state label next allowed stepped held
      rw [← held.2.1] at member
      exact (moveMachine_step allowed.1 allowed.2.1 allowed.2.2 stepped held.1).2 path member
    have folded := run.foldl_eq keep follow initial
    exact folded

instance MoveLabel.decidableFaultless (label : MoveLabel R) : Decidable label.Faultless := by
  unfold MoveLabel.Faultless
  cases label <;> infer_instance

instance Moving.decidableOvertakesCheck (state : Moving R) (label : MoveLabel R) :
    Decidable (state.OvertakesCheck label) := by
  unfold Moving.OvertakesCheck
  cases label <;> infer_instance

instance Moving.decidableRenamesUnderPersist (state : Moving R) (label : MoveLabel R) :
    Decidable (state.RenamesUnderPersist label) := by
  unfold Moving.RenamesUnderPersist
  cases label <;> infer_instance

namespace Replica

/-- The files `f/a` and `f/b`, each holding `a` and open in a session, and the move
of the folder `f` to `g` with the sessions of the given paths. -/
def openedFolder (paths : List JsString) : Moving replicaRuntime where
  move := .folder [102] [103]
  toStateFilePath := fun path => 115 :: path
  paths := paths
  movers := fun path =>
    ⟨((Session.fresh replicaRuntime path path (some (115 :: path)) none).hydrate [97]
      (some none)).finishOpen, .waiting⟩
  disk :=
    { files := fun path => if path ∈ [[102, 47, 97], [102, 47, 98]] then some [97] else none
      sidecars := fun _ => none }
  stage := .idle
  diskMove := .unscheduled

theorem openedFolder_ready {paths : List JsString}
    (known : ∀ path ∈ paths, path ∈ [[102, 47, 97], [102, 47, 98]]) :
    (openedFolder paths).Ready where
  stage := rfl
  diskMove := rfl
  covered := by
    intro path member
    have present := known path member
    simp only [List.mem_cons, List.not_mem_nil, or_false] at present
    rcases present with rfl | rfl <;> rfl
  waiting _ _ := rfl
  bound _ _ := rfl
  clean := by
    intro path member
    have file : (openedFolder paths).disk.files path = some [97] := if_pos (known path member)
    exact ⟨⟨rfl, rfl, rfl, ⟨⟨[97], file, rfl⟩, rfl⟩, trivial⟩, rfl, rfl, rfl, rfl, rfl⟩
  saved := by
    intro path member
    have file : (openedFolder paths).disk.files path = some [97] := if_pos (known path member)
    exact ⟨file, rfl, rfl, nofun⟩

/-- The persist loop of a session takes a number of steps. -/
def persists (path : JsString) (steps : Nat) : List (MoveLabel replicaRuntime) :=
  List.replicate steps (.session path (.persist .ok))

/-- The move of a session continues a number of times. -/
def moves (path : JsString) (steps : Nat) : List (MoveLabel replicaRuntime) :=
  List.replicate steps (.move path)

end Replica

/-- While `f/b` is still flushed, an update reaches the prepared session of `f/a`
and starts a persist. The folder is renamed before the persist writes, and its
write creates `f/a` again. The move succeeds, with a file at an old path. -/
theorem moved_file_created_again :
    ∃ (labels : List (MoveLabel replicaRuntime)) (target : Moving replicaRuntime),
      (Replica.openedFolder [[102, 47, 97], [102, 47, 98]]).Ready ∧
      (moveMachine replicaRuntime).Run (fun _ label => label.Faultless)
        (Replica.openedFolder [[102, 47, 97], [102, 47, 98]]) labels target ∧
      target.stage = .done ∧
      ¬ MovedWhole (Replica.openedFolder [[102, 47, 97], [102, 47, 98]]) labels target := by
  obtain ⟨target, run, seen⟩ : ∃ target, (moveMachine replicaRuntime).Run
      (fun _ label => label.Faultless) (Replica.openedFolder [[102, 47, 97], [102, 47, 98]])
      ([.session [102, 47, 98] (.update (.insert 1 1 [98]) none), .call] ++
        Replica.moves [102, 47, 97] 2 ++ Replica.moves [102, 47, 98] 1 ++
        [.session [102, 47, 97] (.update (.insert 1 1 [99]) none)] ++
        Replica.persists [102, 47, 97] 2 ++ Replica.persists [102, 47, 98] 7 ++
        Replica.moves [102, 47, 98] 2 ++ [.proceed, .move [102, 47, 97], .move [102, 47, 98],
          .rename] ++ Replica.persists [102, 47, 97] 5 ++ [.settleMove, .move [102, 47, 97],
          .move [102, 47, 98]] ++ Replica.moves [102, 47, 97] 4 ++
        Replica.moves [102, 47, 98] 4 ++ [.proceed]) target ∧
      (target.stage, target.disk.files [102, 47, 97]) = (.done, some [97, 99]) :=
    Machine.evaluate_view (by decide +kernel)
  obtain ⟨finished, file⟩ := Prod.mk.inj seen
  refine ⟨_, target, Replica.openedFolder_ready (fun _ member => member), run, finished, ?_⟩
  intro whole
  have none := whole.gone [102, 47, 97] rfl
  rw [file] at none
  cases none

/-- An update during the flush and one during the rename are both in the file at
the new path. -/
theorem move_loses_nothing_updated :
    ∃ (labels : List (MoveLabel replicaRuntime)) (target : Moving replicaRuntime),
      (moveMachine replicaRuntime).Run (fun state label => label.Faultless ∧
        ¬ state.OvertakesCheck label ∧ ¬ state.RenamesUnderPersist label)
        (Replica.openedFolder [[102, 47, 97], [102, 47, 98]]) labels target ∧
      target.disk.files [103, 47, 97] = some [97, 98, 99] ∧
      MovedWhole (Replica.openedFolder [[102, 47, 97], [102, 47, 98]]) labels target := by
  obtain ⟨target, run, seen⟩ : ∃ target, (moveMachine replicaRuntime).Run
      (fun state label => label.Faultless ∧ ¬ state.OvertakesCheck label ∧
        ¬ state.RenamesUnderPersist label)
      (Replica.openedFolder [[102, 47, 97], [102, 47, 98]])
      ([.session [102, 47, 97] (.update (.insert 1 1 [98]) none), .call] ++
        Replica.moves [102, 47, 97] 1 ++ Replica.moves [102, 47, 98] 2 ++
        Replica.persists [102, 47, 97] 7 ++ Replica.moves [102, 47, 97] 2 ++
        [.proceed, .move [102, 47, 97], .move [102, 47, 98], .rename,
          .session [102, 47, 97] (.update (.insert 1 2 [99]) none), .settleMove,
          .move [102, 47, 97], .move [102, 47, 98]] ++ Replica.moves [102, 47, 97] 4 ++
        Replica.persists [102, 47, 97] 1 ++ Replica.moves [102, 47, 98] 4 ++ [.proceed]) target ∧
      (target.stage, target.disk.files [103, 47, 97]) = (.done, some [97, 98, 99]) :=
    Machine.evaluate_view (by decide +kernel)
  obtain ⟨finished, file⟩ := Prod.mk.inj seen
  exact ⟨_, target, run, file,
    move_loses_nothing (Replica.openedFolder_ready fun _ member => member) run finished⟩

end Kb1Daemon
