import Kb1Daemon.Manager.Transition

/-! # A session with its path mutations

`moveTo` and `deleteWith` run one after another on a session: each prepares the
session, installs a path transition, lets its callback work on disk and then
rewrites or removes what belongs to the session. Every step that does I/O may
fail. A transition that is rejected also fails the materialization that waits
for it.
-/

namespace Kb1Daemon

/-- A move or a deletion of a session's file. -/
inductive PathMutation where
  | moveTo (path stateFilePath : JsString)
  | deleteWith
  deriving DecidableEq, Repr

/-- What the callback of the mutation does on disk. -/
def PathMutation.onDisk (mutation : PathMutation) (disk : Disk) (path : JsString) : Disk :=
  match mutation with
  | .moveTo target _ => disk.rename (.file path target)
  | .deleteWith => disk.put path none

/-- The await at which the path mutation of a session stands. -/
inductive MutationTask where
  | idle
  | preparing (mutation : PathMutation) (task : PrepareTask)
  /-- The transition is installed and awaits the callback. -/
  | onDisk (mutation : PathMutation)
  /-- The promise of the callback is settled. -/
  | settled (mutation : PathMutation) (succeeded : Bool)
  | writeMarkdown (rebinding : Rebinding)
  | writeSnapshot (rebinding : Rebinding) (snapshot : PendingSnapshot)
  | removeState (rebinding : Rebinding)
  | deleteState
  /-- The transition has resolved and is to be cleared. -/
  | release

namespace Session

variable {R : Runtime}

/-- The transition is rejected and cleared; a materialization that waits for it
fails with it. -/
def rejectTransition (session : Session R) : Session R :=
  match session.persist with
  | .awaitTransition => (session.setTransition false).failMaterialize
  | _ => session.setTransition false

/-- Watch the file again after a failure, unless the session is deleted. -/
def resumeWatching (session : Session R) : Session R :=
  if session.deleted then session else session.startWatching

/-- Remove the state sidecar, if there is one. -/
def deleteStateSnapshot (session : Session R) (disk : Disk) : Disk :=
  match session.stateFilePath with
  | none => disk
  | some stateFilePath => disk.removeSidecar stateFilePath

/-- A path mutation continues up to its next await. -/
def mutate (session : Session R) (disk : Disk) :
    MutationTask → Io → Option (Session R × Disk × MutationTask)
  | .preparing _ .failed, .ok => some (session, disk, .idle)
  | .preparing (.moveTo path stateFilePath) .prepared, .ok =>
      if session.deleted then some (session, disk, .idle)
      else some (session.setTransition true, disk, .onDisk (.moveTo path stateFilePath))
  | .preparing .deleteWith .prepared, .ok =>
      some (session.setTransition true, disk, .onDisk .deleteWith)
  | .preparing mutation task, .ok =>
      (session.prepareStep task).map fun prepared =>
        (prepared.1, disk, .preparing mutation prepared.2)
  | .onDisk mutation, .ok =>
      some (session, mutation.onDisk disk session.filePath, .settled mutation true)
  | .onDisk mutation, .fail => some (session, disk, .settled mutation false)
  | .onDisk mutation, .failLate =>
      some (session, mutation.onDisk disk session.filePath, .settled mutation false)
  | .settled _ false, .ok => some (session.resumeWatching.rejectTransition, disk, .idle)
  | .settled (.moveTo path stateFilePath) true, .ok =>
      if session.deleted then some (session.rejectTransition, disk, .idle)
      else
        some (session.rebind path stateFilePath, disk,
          .writeMarkdown ⟨session.eventPath, session.stateFilePath, session.currentContent⟩)
  | .settled .deleteWith true, .ok => some (session, disk, .deleteState)
  | .writeMarkdown rebinding, .ok =>
      some (session, disk.write session.filePath rebinding.content,
        .writeSnapshot rebinding (session.snapshot (R.hashContent rebinding.content)))
  | .writeMarkdown _, .fail => some (session.rejectTransition, disk, .idle)
  | .writeMarkdown rebinding, .failLate =>
      some (session.rejectTransition, disk.write session.filePath rebinding.content, .idle)
  | .writeSnapshot rebinding snapshot, .ok =>
      some (session, disk.writeSnapshot snapshot, .removeState rebinding)
  | .writeSnapshot _ _, .fail => some (session.rejectTransition, disk, .idle)
  | .writeSnapshot _ snapshot, .failLate =>
      some (session.rejectTransition, disk.writeSnapshot snapshot, .idle)
  | .removeState rebinding, .ok =>
      some (session.recordMove rebinding, disk.removeState session rebinding, .release)
  | .removeState _, .fail => some (session.rejectTransition, disk, .idle)
  | .deleteState, .ok =>
      some (session.markDeleted, session.deleteStateSnapshot disk, .release)
  | .deleteState, .fail => some (session.resumeWatching.rejectTransition, disk, .idle)
  | .release, .ok => some (session.setTransition false, disk, .idle)
  | _, _ => none

end Session

/-- A session, its disk and the path mutation at the head of its queue. -/
structure Tenancy (R : Runtime) where
  site : Site R
  task : MutationTask

/-- The steps of a session and of its path mutations. -/
inductive TenancyLabel (R : Runtime) where
  | session (label : SessionLabel R)
  /-- The next path mutation begins. -/
  | mutate (mutation : PathMutation)
  /-- The path mutation continues. -/
  | proceed (io : Io)

/-- The machine of a session with its path mutations. -/
def tenancyMachine (R : Runtime) : Machine (Tenancy R) (TenancyLabel R) where
  step state label :=
    match label with
    | .session label =>
        ((sessionMachine R).step state.site label).map fun site => { state with site := site }
    | .mutate mutation =>
        match state.task with
        | .idle =>
            if mutation = .deleteWith ∧ state.site.session.deleted then none
            else some { state with task := .preparing mutation .opening }
        | _ => none
    | .proceed io =>
        (state.site.session.mutate state.site.disk state.task io).map fun next =>
          ⟨⟨next.1, next.2.1⟩, next.2.2⟩

end Kb1Daemon
