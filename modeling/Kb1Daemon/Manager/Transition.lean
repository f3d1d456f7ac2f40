import Kb1Daemon.Manager.Paths
import Kb1Daemon.Session.Saving
import Kb1Daemon.Session.Steady

/-! # Preparing a session for a path transition

Before the manager moves or deletes files it prepares their sessions: each stops
watching its file, waits for a running check and flushes. Continuations of
settled promises run before the next I/O completion, timer or message; a session
whose loop has such a continuation due is not at rest (`Session.persistReady`).
-/

namespace Kb1Daemon

/-- The await at which `prepareForPathTransition` stands. -/
inductive PrepareTask where
  | opening
  | awaitCheck
  | flushing (task : FlushTask)
  | prepared
  | failed
  deriving DecidableEq, Repr

/-- What the completion of a move remembers while it writes. -/
structure Rebinding where
  fromPath : JsString
  previousStateFilePath : Option JsString
  content : JsString

/-- A persist is under way and does not wait for the transition. -/
def PersistTask.inFlight {R : Runtime} : PersistTask R → Bool
  | .idle | .awaitTransition => false
  | _ => true

theorem PersistTask.rests_of_not_inFlight {R : Runtime} {task : PersistTask R}
    (rests : task.inFlight = false) :
    task = .idle ∨ task = .awaitTransition := by
  cases task with
  | idle => exact .inl rfl
  | awaitTransition => exact .inr rfl
  | _ => cases rests

namespace Session

variable {R : Runtime}

/-- A continuation of the persist loop is due that waits for no I/O. -/
def persistReady (session : Session R) : Bool :=
  match session.persist with
  | .loopTest | .settle => true
  | .awaitTransition => !session.pathTransition
  | _ => false

/-- Stop the watcher and the poll timer. -/
def stopWatching (session : Session R) : Session R := { session with watching := false }

/-- Start the watcher and the poll timer. -/
def startWatching (session : Session R) : Session R := { session with watching := true }

/-- Install or clear the path transition. -/
def setTransition (session : Session R) (installed : Bool) : Session R :=
  { session with pathTransition := installed }

/-- Bind the session to another path. -/
def rebind (session : Session R) (path stateFilePath : JsString) : Session R :=
  { session with filePath := path, eventPath := path, stateFilePath := some stateFilePath }

/-- The bookkeeping after the writes of a move. -/
def recordMove (session : Session R) (rebinding : Rebinding) : Session R :=
  { session with
    lastWrittenHash := some (R.hashContent rebinding.content)
    lastWrittenContent := some rebinding.content
    pendingWriteHash := none }.startWatching.emitEvent
      { kind := .docMoved
        path := session.eventPath
        fromPath := some rebinding.fromPath
        toPath := some session.eventPath }

/-- The part of `prepareForPathTransition` after the check it awaits. -/
def flushForTransition (session : Session R) : Session R × PrepareTask :=
  if session.deleted then (session, .failed)
  else
    let flushed := session.flush
    (flushed.1, .flushing flushed.2)

/-- `prepareForPathTransition` continues up to its next await. After a failure a
session that is not deleted watches its file again. -/
def prepareStep (session : Session R) : PrepareTask → Option (Session R × PrepareTask)
  | .opening =>
      if session.opened then
        if session.deleted then some (session, .failed)
        else
          match session.check with
          | .idle => some session.stopWatching.flushForTransition
          | _ => some (session.stopWatching, .awaitCheck)
      else none
  | .awaitCheck =>
      match session.check with
      | .idle => some session.flushForTransition
      | _ => none
  | .flushing .resolved => some (session, .prepared)
  | .flushing .rejected =>
      some (if session.deleted then session else session.startWatching, .failed)
  | .flushing task =>
      (session.flushStep task).map fun flushed => (flushed.1, .flushing flushed.2)
  | .prepared | .failed => none

/-- The watcher is stopped, and once the flush has begun no check runs. -/
def Quiesced (session : Session R) : PrepareTask → Prop
  | .opening => True
  | .awaitCheck => session.watching = false
  | .flushing (.awaitPersist _) | .flushing .resolved | .prepared =>
      session.watching = false ∧ session.check = .idle
  | .flushing _ | .failed => False

theorem flushForTransition_cases {session : Session R} (faultless : session.Faultless)
    (live : session.deleted = false) :
    session.flushForTransition = (session, .flushing .resolved) ∧ session.persist = .idle ∨
      session.flushForTransition = (session, .flushing (.awaitPersist session.generation)) ∧
        session.persist ≠ .idle := by
  rw [flushForTransition, if_neg (by simp [live])]
  unfold flush retryFlush
  split
  · rename_i idle
    left
    rw [if_neg (by simp [faultless.error])]
    exact ⟨rfl, PersistTask.isIdle_iff.mp idle⟩
  · rename_i busy
    exact .inr ⟨rfl, fun idle => busy (PersistTask.isIdle_iff.mpr idle)⟩

theorem Faultless.stopWatching {session : Session R} (faultless : session.Faultless) :
    session.stopWatching.Faultless :=
  ⟨faultless.loop, faultless.outcomes, faultless.recovered, faultless.error⟩

theorem flushStep_of_faultless {session next : Session R} {generation : Nat} {task : FlushTask}
    (faultless : session.Faultless)
    (stepped : session.flushStep (.awaitPersist generation) = some (next, task)) :
    next = session ∧ task = .resolved ∧ generation < session.persistOutcomes.length := by
  dsimp only [flushStep] at stepped
  split at stepped
  · cases stepped
  · rename_i rejected
    have safe := faultless.outcomes true (List.mem_of_getElem? rejected)
    cases safe
  · rename_i settled
    rw [retryFlush, if_neg (by simp [faultless.error])] at stepped
    cases stepped
    exact ⟨rfl, rfl, (List.getElem?_eq_some_iff.mp settled).1⟩

/-- What a step of a preparation does to a session that is live and has no failed
persist: it stops watching, and does nothing else to it. -/
theorem prepareStep_cases {session next : Session R} {task nextTask : PrepareTask}
    (live : session.deleted = false) (faultless : session.Faultless)
    (quiesced : session.Quiesced task)
    (stepped : session.prepareStep task = some (next, nextTask)) :
    (next = session ∨ next = session.stopWatching) ∧ next.Quiesced nextTask := by
  unfold prepareStep at stepped
  split at stepped
  · split at stepped
    · rw [if_neg (by simp [live])] at stepped
      split at stepped
      · rename_i idle
        rcases flushForTransition_cases faultless.stopWatching live with ⟨flushed, _⟩ | ⟨flushed, _⟩
        all_goals
          rw [flushed] at stepped
          cases stepped
          exact ⟨.inr rfl, rfl, idle⟩
      · cases stepped
        exact ⟨.inr rfl, rfl⟩
    · cases stepped
  · split at stepped
    · rename_i idle
      rcases flushForTransition_cases faultless live with ⟨flushed, _⟩ | ⟨flushed, _⟩
      all_goals
        rw [flushed] at stepped
        cases stepped
        exact ⟨.inl rfl, quiesced, idle⟩
    · cases stepped
  · cases stepped
    exact ⟨.inl rfl, quiesced⟩
  · exact quiesced.elim
  · rename_i flushTask unresolved unrejected
    obtain ⟨⟨flushed, flushedTask⟩, moved, same⟩ := Option.map_eq_some_iff.mp stepped
    cases same
    cases flushTask with
    | awaitPersist generation =>
        obtain ⟨rfl, rfl, _⟩ := flushStep_of_faultless faultless moved
        exact ⟨.inl rfl, quiesced⟩
    | awaitRetry generation => exact quiesced.elim
    | resolved => exact absurd rfl unresolved
    | rejected => exact absurd rfl unrejected
  · cases stepped
  · cases stepped

/-- Preparing a steady session keeps it steady. -/
theorem Steady.prepareStep {session next : Session R} {task nextTask : PrepareTask} {disk : Disk}
    (steady : session.Steady disk) (quiesced : session.Quiesced task)
    (stepped : session.prepareStep task = some (next, nextTask)) :
    next.Steady disk ∧ next.Quiesced nextTask ∧ next.doc = session.doc ∧
      next.binding = session.binding := by
  obtain ⟨same | same, quiet⟩ := prepareStep_cases steady.live steady.faultless quiesced stepped
  · subst same
    exact ⟨steady, quiet, rfl, rfl⟩
  · subst same
    obtain ⟨opened, live, persist, check, loop, outcomes, recovered, error⟩ := steady
    exact ⟨⟨opened, live, persist.congr rfl rfl rfl rfl rfl rfl rfl, check,
      loop, outcomes, recovered, error⟩, quiet, rfl, rfl⟩

theorem Steady.setTransition {session : Session R} {disk : Disk} (steady : session.Steady disk)
    (installed : Bool) : (session.setTransition installed).Steady disk := by
  obtain ⟨opened, live, persist, check, loop, outcomes, recovered, error⟩ := steady
  exact ⟨opened, live, persist.congr rfl rfl rfl rfl rfl rfl rfl, check,
    loop, outcomes, recovered, error⟩

theorem Steady.startWatching {session : Session R} {disk : Disk} (steady : session.Steady disk) :
    session.startWatching.Steady disk := by
  obtain ⟨opened, live, persist, check, loop, outcomes, recovered, error⟩ := steady
  exact ⟨opened, live, persist.congr rfl rfl rfl rfl rfl rfl rfl, check,
    loop, outcomes, recovered, error⟩

/-- A steady session without a check or a running persist is paused by the
transition. -/
theorem Steady.paused {session : Session R} {disk : Disk} (steady : session.Steady disk)
    (transition : session.pathTransition = true) (quiesced : session.Quiesced .prepared)
    (persist : session.persist = .idle ∨ session.persist = .awaitTransition) : session.Paused :=
  ⟨steady.opened, steady.live, transition, quiesced.1, quiesced.2, persist, steady.faultless⟩

/-- A quiesced session stays so in steps that keep its watcher and start no
check. -/
theorem Quiesced.congr {session next : Session R} {task : PrepareTask}
    (quiesced : session.Quiesced task) (watching : next.watching = session.watching)
    (check : session.watching = false → session.check = .idle → next.check = .idle) :
    next.Quiesced task := by
  unfold Quiesced at *
  split at quiesced
  · trivial
  · exact watching.trans quiesced
  · exact ⟨watching.trans quiesced.1, check quiesced.1 quiesced.2⟩
  · exact ⟨watching.trans quiesced.1, check quiesced.1 quiesced.2⟩
  · exact ⟨watching.trans quiesced.1, check quiesced.1 quiesced.2⟩
  all_goals exact quiesced.elim

/-- The persist promise at the given place is pending, or it was the last to
settle and the loop rests since. -/
def Awaits (session : Session R) (generation : Nat) : Prop :=
  session.persist ≠ .idle ∧ session.persistOutcomes.length = generation ∨
    session.persist = .idle ∧ session.persistOutcomes.length = generation + 1

/-- The loop rests from the end of the flush on. -/
def Calm (session : Session R) : PrepareTask → Prop
  | .flushing (.awaitPersist generation) => session.Awaits generation
  | .flushing .resolved | .prepared => session.persist = .idle
  | _ => True

theorem Calm.prepareStep {session next : Session R} {task nextTask : PrepareTask}
    (live : session.deleted = false) (faultless : session.Faultless)
    (quiesced : session.Quiesced task) (calm : session.Calm task)
    (stepped : session.prepareStep task = some (next, nextTask)) : next.Calm nextTask := by
  unfold Session.prepareStep at stepped
  split at stepped
  · split at stepped
    · rw [if_neg (by simp [live])] at stepped
      split at stepped
      · rcases flushForTransition_cases faultless.stopWatching live with
          ⟨flushed, idle⟩ | ⟨flushed, running⟩
        · rw [flushed] at stepped
          cases stepped
          exact idle
        · rw [flushed] at stepped
          cases stepped
          exact .inl ⟨running, rfl⟩
      · cases stepped
        trivial
    · cases stepped
  · split at stepped
    · rcases flushForTransition_cases faultless live with ⟨flushed, idle⟩ | ⟨flushed, running⟩
      · rw [flushed] at stepped
        cases stepped
        exact idle
      · rw [flushed] at stepped
        cases stepped
        exact .inl ⟨running, rfl⟩
    · cases stepped
  · cases stepped
    exact calm
  · exact quiesced.elim
  · rename_i flushTask unresolved unrejected
    obtain ⟨⟨flushed, flushedTask⟩, moved, same⟩ := Option.map_eq_some_iff.mp stepped
    cases same
    cases flushTask with
    | awaitPersist generation =>
        obtain ⟨rfl, rfl, settled⟩ := flushStep_of_faultless faultless moved
        rcases calm with ⟨_, pending⟩ | ⟨idle, _⟩
        · omega
        · exact idle
    | awaitRetry generation => exact quiesced.elim
    | resolved => exact absurd rfl unresolved
    | rejected => exact absurd rfl unrejected
  · cases stepped
  · cases stepped

end Session

/-- Remove the sidecar of the old path, unless it is still the session's. -/
def Disk.removeState {R : Runtime} (disk : Disk) (session : Session R) (rebinding : Rebinding) :
    Disk :=
  match rebinding.previousStateFilePath with
  | some previous =>
      if some previous = session.stateFilePath then disk else disk.removeSidecar previous
  | none => disk

theorem Disk.removeState_files {R : Runtime} (disk : Disk) (session : Session R)
    (rebinding : Rebinding) : (disk.removeState session rebinding).files = disk.files := by
  unfold Disk.removeState
  split
  · split <;> rfl
  · rfl

variable {R : Runtime}

/-- Without a watcher no check starts. -/
theorem check_idle_of_unwatched {site next : Site R} {label : SessionLabel R}
    (unwatched : site.session.watching = false) (idle : site.session.check = .idle)
    (stepped : (sessionMachine R).step site label = some next) : next.session.check = .idle := by
  simp only [sessionMachine] at stepped
  cases label with
  | update update attribution =>
      dsimp only at stepped
      split at stepped
      · obtain rfl := Option.some.inj stepped
        exact (congrArg Session.Frame.check
          (Session.frame_applyUpdate site.session update attribution)).trans idle
      · cases stepped
  | edit content attribution =>
      dsimp only at stepped
      split at stepped
      · obtain rfl := Option.some.inj stepped
        exact (congrArg Session.Frame.check
          (Session.frame_applyContent site.session content attribution)).trans idle
      · cases stepped
  | retry =>
      dsimp only at stepped
      split at stepped
      · obtain rfl := Option.some.inj stepped
        exact (congrArg Session.Frame.check (Session.frame_requestPersist site.session)).trans idle
      · cases stepped
  | persist io =>
      obtain ⟨⟨session, disk⟩, moved, rfl⟩ := Option.map_eq_some_iff.mp stepped
      exact (congrArg Session.Frame.check (Session.frame_persistStep moved)).trans idle
  | startCheck =>
      obtain ⟨session, started, rfl⟩ := Option.map_eq_some_iff.mp stepped
      simp [Session.startCheck, idle, unwatched] at started
  | check io =>
      obtain ⟨⟨session, disk⟩, moved, rfl⟩ := Option.map_eq_some_iff.mp stepped
      simp [Session.checkStep, idle] at moved
  | external content =>
      obtain rfl := Option.some.inj stepped
      exact idle

/-- A steady session that is quiesced stays so in its own steps. -/
theorem steady_quiesced_step {session : Session R} {disk : Disk} {site : Site R} {label : SessionLabel R}
    {task : PrepareTask} (faultless : label.Faultless)
    (order : ¬ OvertakesCheck ⟨session, disk⟩ label)
    (running : label.transacts = true → session.persist ≠ .settle)
    (stepped : (sessionMachine R).step ⟨session, disk⟩ label = some site)
    (steady : session.Steady disk) (quiesced : session.Quiesced task) :
    site.session.Steady site.disk ∧ site.session.Quiesced task := by
  obtain ⟨kept, _, watching, _⟩ :=
    sessionMachine_step_steady faultless order running stepped steady
  refine ⟨kept, quiesced.congr watching ?_⟩
  intro unwatched idle
  exact check_idle_of_unwatched unwatched idle stepped

/-- A transaction or a retry leaves the pending persist promise pending. -/
theorem Session.Awaits.nudged {session next : Session R} {generation : Nat}
    (awaits : session.Awaits generation) (pending : session.persistOutcomes.length ≤ generation)
    (nudged : Session.Nudged session next) : next.Awaits generation := by
  rcases awaits with ⟨running, place⟩ | ⟨_, settled⟩
  · exact .inl ⟨nudged.running running, (congrArg List.length nudged.outcomes).trans place⟩
  · omega

/-- **The loop rests from the end of the flush on**, if no transaction comes
between the end of the flush and what follows it. -/
theorem Session.Calm.step {site next : Site R} {label : SessionLabel R} {task : PrepareTask}
    (calm : site.session.Calm task) (live : site.session.deleted = false)
    (faultless : site.session.Faultless)
    (due : label.transacts = true → site.session.prepareStep task = none ∧ task ≠ .prepared)
    (stepped : (sessionMachine R).step site label = some next) : next.session.Calm task := by
  have nudges : ∀ session : Session R, label.transacts = true →
      Session.Nudged site.session session → session.Calm task := by
    intro session transacts nudged
    obtain ⟨none, unprepared⟩ := due transacts
    cases task with
    | flushing flush =>
        cases flush with
        | awaitPersist generation =>
            refine Session.Awaits.nudged calm ?_ nudged
            by_contra settled
            have place : generation < site.session.persistOutcomes.length := by omega
            simp only [Session.prepareStep, Session.flushStep,
              List.getElem?_eq_getElem place] at none
            split at none <;> simp_all
        | resolved => simp [Session.prepareStep] at none
        | _ => trivial
    | prepared => exact absurd rfl unprepared
    | _ => trivial
  have scheduled : ∀ session : Session R, session.schedule = site.session.schedule →
      session.Calm task := by
    intro session same
    have persist := congrArg Session.Schedule.persist same
    have outcomes := congrArg Session.Schedule.persistOutcomes same
    unfold Session.Calm Session.Awaits at *
    change session.persist = _ at persist
    change session.persistOutcomes = _ at outcomes
    rw [persist, outcomes]
    exact calm
  simp only [sessionMachine] at stepped
  cases label with
  | update update attribution =>
      dsimp only at stepped
      split at stepped
      · obtain rfl := Option.some.inj stepped
        exact nudges _ rfl (Session.nudged_applyUpdate live update attribution)
      · cases stepped
  | edit content attribution =>
      dsimp only at stepped
      split at stepped
      · obtain rfl := Option.some.inj stepped
        exact nudges _ rfl (Session.nudged_applyContent live content attribution)
      · cases stepped
  | retry =>
      dsimp only at stepped
      rw [if_neg (by simp [faultless.error])] at stepped
      cases stepped
  | persist io =>
      obtain ⟨⟨session, disk⟩, moved, rfl⟩ := Option.map_eq_some_iff.mp stepped
      have running : site.session.persist ≠ .idle := by
        intro idle
        simp [Session.persistStep, idle] at moved
      cases task with
      | flushing flush =>
          cases flush with
          | awaitPersist generation =>
              rcases calm with ⟨_, place⟩ | ⟨idle, _⟩
              · rcases Session.promise_persistStep moved with ⟨busy, same⟩ | ⟨rests, settled⟩
                · exact .inl ⟨busy, (congrArg List.length same).trans place⟩
                · right
                  refine ⟨rests, ?_⟩
                  change session.persistOutcomes.length = _
                  rw [settled, List.length_append, place]
                  rfl
              · exact absurd idle running
          | resolved => exact absurd calm running
          | _ => trivial
      | prepared => exact absurd calm running
      | _ => trivial
  | startCheck =>
      obtain ⟨session, started, rfl⟩ := Option.map_eq_some_iff.mp stepped
      exact scheduled session (Session.schedule_startCheck started)
  | check io =>
      obtain ⟨⟨session, disk⟩, moved, rfl⟩ := Option.map_eq_some_iff.mp stepped
      exact scheduled session (Session.schedule_checkStep moved)
  | external content =>
      obtain rfl := Option.some.inj stepped
      exact calm

end Kb1Daemon
