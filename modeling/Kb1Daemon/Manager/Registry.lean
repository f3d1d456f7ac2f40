import Kb1Daemon.Foundation.Machine
import Kb1Daemon.Foundation.Table
import Kb1Daemon.Manager.Paths
import Mathlib.Logic.Function.Basic

/-! # The registry of sessions

The manager keeps the sessions of a vault in a map from paths to session objects. It
counts the clients and operations of each, closes unused sessions when an idle timer
fires, and runs one structure mutation after another. A mutation reserves its paths when
it is called and releases them when its promise is settled; until then nobody is given a
session for such a path.

Here a session is what the manager sees of it, and every step runs up to the next await.
The branches of a folder move continue on their own: when one of them fails, the promise
of the move is settled and the others are left running.
-/

namespace Kb1Daemon

open JsString

/-- Where the files of a note lie. -/
structure Layout where
  toFilePath : JsString → JsString
  toStateFilePath : JsString → JsString

/-- What the manager sees of a session object. -/
structure Managed where
  filePath : JsString
  eventPath : JsString
  stateFilePath : JsString
  opened : Bool
  deleted : Bool
  watching : Bool
  persistFailed : Bool
  deriving DecidableEq, Repr

namespace Managed

/-- A session object before its first open. -/
def fresh (layout : Layout) (vaultPath : JsString) : Managed where
  filePath := layout.toFilePath vaultPath
  eventPath := vaultPath
  stateFilePath := layout.toStateFilePath vaultPath
  opened := false
  deleted := false
  watching := false
  persistFailed := false

def isOpened (session : Managed) : Bool := session.opened && !session.deleted

/-- The file is loaded. -/
def open_ (session : Managed) : Managed := { session with opened := true, watching := true }

def stopWatching (session : Managed) : Managed := { session with watching := false }

def startWatching (session : Managed) : Managed := { session with watching := true }

/-- Watch the file again after a failure, unless the session is deleted. -/
def resumeWatching (session : Managed) : Managed :=
  if session.deleted then session else session.startWatching

def markDeleted (session : Managed) : Managed :=
  if session.deleted then session else { session with deleted := true, watching := false }

/-- Bind the session to another path. -/
def rebind (session : Managed) (layout : Layout) (vaultPath : JsString) : Managed :=
  { session with
    filePath := layout.toFilePath vaultPath
    eventPath := vaultPath
    stateFilePath := layout.toStateFilePath vaultPath }

end Managed

/-- The structure mutations. -/
inductive Mutation where
  | moveSession (fromPath toPath : JsString)
  | moveSessionSubtree (fromFolder toFolder : JsString)
  | deleteSession (path : JsString)
  | deleteSessionSubtree (folderPath : JsString)
  | withStablePath (vaultPath : JsString)
  | closeSession (vaultPath : JsString)
  deriving DecidableEq, Repr

/-- What a reservation covers. -/
inductive PathReservation where
  | exactPaths (paths : List JsString)
  | subtrees (folders : List JsString)
  deriving DecidableEq, Repr

def PathReservation.matches (reservation : PathReservation) (vaultPath : JsString) : Bool :=
  match reservation with
  | .exactPaths paths => paths.contains vaultPath
  | .subtrees folders => folders.any fun folder => vaultPath == folder || isUnder folder vaultPath

/-- The reservation a mutation is called with. -/
def Mutation.reservation : Mutation → PathReservation
  | .moveSession fromPath toPath => .exactPaths [fromPath, toPath]
  | .moveSessionSubtree fromFolder toFolder => .subtrees [fromFolder, toFolder]
  | .deleteSession path => .exactPaths [path]
  | .deleteSessionSubtree folderPath => .subtrees [folderPath]
  | .withStablePath vaultPath => .exactPaths [vaultPath]
  | .closeSession vaultPath => .exactPaths [vaultPath]

/-- The await at which one session of a move stands. -/
inductive Stage where
  /-- It awaits its open. -/
  | opening
  /-- It has stopped watching, and awaits its check and its flush. -/
  | flushing
  | prepared
  /-- It awaits the move on disk. -/
  | moving
  /-- It is bound to its new path and rewrites its files. -/
  | writing
  | done
  | failed
  deriving DecidableEq, Repr

/-- The session has work to do. -/
def Stage.isPending : Stage → Bool
  | .opening | .flushing | .moving | .writing => true
  | .prepared | .done | .failed => false

/-- One session of a move. -/
structure Branch where
  session : Nat
  fromPath : JsString
  toPath : JsString
  stage : Stage
  deriving DecidableEq, Repr

/-- The await at which the deletion of one session stands. -/
inductive RemovalStage where
  | opening
  | flushing
  | onDisk
  /-- The state sidecar is removed. -/
  | state
  deriving DecidableEq, Repr

/-- The deletion of one session. -/
structure Removal where
  session : Nat
  path : JsString
  stage : RemovalStage
  deriving DecidableEq, Repr

/-- The await at which a mutation stands. -/
inductive Work where
  /-- A move of one file awaits the stat of its source, with the session it has found. -/
  | statFile (fromPath toPath : JsString) (session : Option Nat)
  | statFolder (fromFolder toFolder : JsString)
  /-- A callback works on disk and no session takes part. -/
  | onDisk
  /-- The sessions of a move are prepared. -/
  | preparing (branches : List Branch)
  /-- The sessions of a move complete it; the move on disk may be pending. -/
  | moving (branches : List Branch) (diskPending : Bool)
  /-- A session is deleted, and then those of the other paths. -/
  | removing (removal : Removal) (paths : List JsString) (diskDeleted subtree : Bool)
  /-- The callback of a path without a session; then those of the other paths. -/
  | removingBare (paths : List JsString)
  /-- The operation of `withStablePath` runs. -/
  | stable (session : Option Nat)
  /-- A session that was taken out of the map is closed. -/
  | closing (vaultPath : JsString) (session : Nat)
  | settled
  deriving DecidableEq, Repr

namespace Work

/-- The promise of the mutation is settled. -/
def isSettled : Work → Bool
  | .settled => true
  | .preparing branches => branches.any fun branch => branch.stage = .failed
  | .moving branches _ =>
      branches.any (fun branch => branch.stage = .failed) ||
        branches.all fun branch => branch.stage = .done
  | _ => false

/-- Nothing the mutation has started is still running. -/
def isFinished : Work → Bool
  | .settled => true
  | .preparing branches => !branches.any fun branch => branch.stage.isPending
  | .moving branches diskPending =>
      !diskPending && !branches.any fun branch => branch.stage.isPending
  | _ => false

end Work

/-- A call of a structure mutation, named by its ticket. -/
structure MutationCall where
  ticket : Nat
  mutation : Mutation
  deriving DecidableEq, Repr

/-- A client or an operation that was given a session. -/
structure SessionUse where
  session : Nat
  /-- The path it was asked for. -/
  vaultPath : JsString
  ended : Bool
  deriving DecidableEq, Repr

/-- The state of the manager. -/
structure Manager where
  sessions : Table JsString Nat
  /-- The session objects. -/
  store : Nat → Managed
  /-- The next session object. -/
  fresh : Nat
  clientCounts : Nat → Nat
  operationCounts : Nat → Nat
  clients : List SessionUse
  operations : List SessionUse
  /-- The calls of `withSession` whose wait for their path has ended. -/
  available : List JsString
  /-- The paths whose idle timer is armed. -/
  idleCloseTimers : List JsString
  pathReservations : List (Nat × PathReservation)
  /-- The next ticket. -/
  ticket : Nat
  /-- The mutations that are not settled; the first is the next to begin, or runs. -/
  queue : List MutationCall
  running : Option Work
  /-- What settled mutations have left running. -/
  detached : List Work

namespace Manager

/-- A manager that has not been used. -/
def empty : Manager where
  sessions := Table.empty
  store := fun _ => ⟨[], [], [], false, false, false, false⟩
  fresh := 0
  clientCounts := fun _ => 0
  operationCounts := fun _ => 0
  clients := []
  operations := []
  available := []
  idleCloseTimers := []
  pathReservations := []
  ticket := 0
  queue := []
  running := none
  detached := []

/-- Change one session object. -/
def update (manager : Manager) (session : Nat) (change : Managed → Managed) : Manager :=
  { manager with store := Function.update manager.store session (change (manager.store session)) }

@[simp] theorem store_update_self (manager : Manager) (session : Nat)
    (change : Managed → Managed) :
    (manager.update session change).store session = change (manager.store session) :=
  Function.update_self ..

theorem store_update_of_ne (manager : Manager) {session other : Nat} (different : other ≠ session)
    (change : Managed → Managed) :
    (manager.update session change).store other = manager.store other :=
  Function.update_of_ne different ..

/-- What a change keeps of one session it keeps of all. -/
theorem store_update_field (manager : Manager) (session other : Nat) {change : Managed → Managed}
    {Field : Type} {field : Managed → Field}
    (keeps : ∀ managed, field (change managed) = field managed) :
    field ((manager.update session change).store other) = field (manager.store other) := by
  by_cases same : other = session
  · rw [same, store_update_self]
    exact keeps _
  · rw [store_update_of_ne manager same]

def hasPathReservation (manager : Manager) (vaultPath : JsString) : Bool :=
  manager.pathReservations.any fun entry => entry.2.matches vaultPath

def isSessionInUse (manager : Manager) (session : Nat) : Bool :=
  0 < manager.clientCounts session || 0 < manager.operationCounts session

def cancelIdleClose (manager : Manager) (vaultPath : JsString) : Manager :=
  { manager with idleCloseTimers := manager.idleCloseTimers.filter fun path => path ≠ vaultPath }

/-- Arm the idle timer of an unused session; one that is not open is dropped. -/
def scheduleIdleClose (manager : Manager) (vaultPath : JsString) : Manager :=
  match manager.sessions.get vaultPath with
  | none => manager
  | some session =>
      if manager.isSessionInUse session then manager
      else
        let cancelled := manager.cancelIdleClose vaultPath
        if !(manager.store session).isOpened then
          { cancelled with sessions := cancelled.sessions.delete vaultPath }
        else { cancelled with idleCloseTimers := vaultPath :: cancelled.idleCloseTimers }

/-- The session of an available path, created if there is none. -/
def getSession (manager : Manager) (layout : Layout) (vaultPath : JsString) : Manager × Nat :=
  let cancelled := manager.cancelIdleClose vaultPath
  match cancelled.sessions.get vaultPath with
  | some session => (cancelled, session)
  | none =>
      ({ cancelled with
          sessions := cancelled.sessions.set vaultPath cancelled.fresh
          store := Function.update cancelled.store cancelled.fresh (.fresh layout vaultPath)
          fresh := cancelled.fresh + 1 },
        cancelled.fresh)

/-- A client is given the session of an available path. -/
def attachClientSession (manager : Manager) (layout : Layout) (vaultPath : JsString) :
    Option Manager :=
  if manager.hasPathReservation vaultPath then none
  else
    let (got, session) := manager.getSession layout vaultPath
    some { got with
      clientCounts := Function.update got.clientCounts session (got.clientCounts session + 1)
      clients := got.clients ++ [⟨session, vaultPath, false⟩] }

/-- A client releases its session; a second time nothing happens. -/
def release (manager : Manager) (index : Nat) : Option Manager :=
  match manager.clients[index]? with
  | none => none
  | some client =>
      if client.ended then some manager
      else
        let currentPath := (manager.sessions.keyOf client.session).getD client.vaultPath
        let nextCount := manager.clientCounts client.session - 1
        let counted :=
          { manager with
            clientCounts := Function.update manager.clientCounts client.session nextCount
            clients := manager.clients.set index { client with ended := true } }
        if 0 < nextCount then some counted
        else if 0 < counted.operationCounts client.session then some counted
        else some (counted.scheduleIdleClose currentPath)

/-- `withSession` goes on after its wait. It cancels the idle timer before it finds out
that the path has been reserved again. -/
def withSession (manager : Manager) (layout : Layout) (vaultPath : JsString) : Option Manager :=
  if vaultPath ∈ manager.available then
    let resumed :=
      { manager with available := manager.available.erase vaultPath }.cancelIdleClose vaultPath
    if resumed.hasPathReservation vaultPath then some resumed
    else
      let (got, session) := resumed.getSession layout vaultPath
      some { got with
        operationCounts :=
          Function.update got.operationCounts session (got.operationCounts session + 1)
        operations := got.operations ++ [⟨session, vaultPath, false⟩] }
  else none

/-- An operation ends. -/
def finishOperation (manager : Manager) (index : Nat) : Option Manager :=
  match manager.operations[index]? with
  | none => none
  | some operation =>
      if operation.ended then none
      else
        let remaining := manager.operationCounts operation.session - 1
        let counted :=
          { manager with
            operationCounts :=
              Function.update manager.operationCounts operation.session remaining
            operations := manager.operations.set index { operation with ended := true } }
        let currentPath := (counted.sessions.keyOf operation.session).getD operation.vaultPath
        if counted.isSessionInUse operation.session then some counted
        else some (counted.scheduleIdleClose currentPath)

/-- A session is marked deleted; the manager drops it from the map. -/
def markDeleted (manager : Manager) (session : Nat) : Manager :=
  if (manager.store session).deleted then manager
  else
    { manager.update session Managed.markDeleted with
      sessions := manager.sessions.deleteValue session }

/-- Put a moved session under its new path. -/
def rekeySession (manager : Manager) (fromPath toPath : JsString) (session : Nat) : Manager :=
  let cancelled := (manager.cancelIdleClose fromPath).cancelIdleClose toPath
  let rekeyed :=
    { cancelled with sessions := (cancelled.sessions.delete fromPath).set toPath session }
  if rekeyed.isSessionInUse session then rekeyed else rekeyed.scheduleIdleClose toPath

/-- A mutation is called: it reserves its paths and joins the queue. -/
def call (manager : Manager) (mutation : Mutation) : Manager :=
  { manager with
    pathReservations := manager.pathReservations ++ [(manager.ticket, mutation.reservation)]
    queue := manager.queue ++ [⟨manager.ticket, mutation⟩]
    ticket := manager.ticket + 1 }

/-- The sessions under a folder, as the branches of its move. -/
def branches (manager : Manager) (fromFolder toFolder : JsString) : List Branch :=
  (manager.sessions.entries.filter fun entry => isUnder fromFolder entry.1).map fun entry =>
    { session := entry.2
      fromPath := entry.1
      toPath := (Move.folder fromFolder toFolder).target entry.1
      stage := .opening }

/-- A session that is not moved lies where the folder goes. -/
def destinationCollision (manager : Manager) (branches : List Branch) (toFolder : JsString) :
    Bool :=
  manager.sessions.entries.any fun entry =>
    (entry.1 == toFolder || isUnder toFolder entry.1) &&
      !branches.any fun branch => branch.session = entry.2

/-- Go on with the next path of a deletion. -/
def removeNext (manager : Manager) (diskDeleted subtree : Bool) :
    List JsString → Manager × Work
  | [] =>
      if subtree && !diskDeleted then (manager, .removingBare []) else (manager, .settled)
  | path :: paths =>
      match manager.sessions.get path with
      | none =>
          if diskDeleted then manager.removeNext diskDeleted subtree paths
          else (manager, .removingBare paths)
      | some session =>
          if (manager.store session).deleted then
            { manager with sessions := manager.sessions.delete path }.removeNext diskDeleted
              subtree paths
          else (manager, .removing ⟨session, path, .opening⟩ paths diskDeleted subtree)

/-- The idle close of a path, up to the close of the session it takes out of the map. -/
def closeSessionUnlocked (manager : Manager) (vaultPath : JsString) : Manager × Work :=
  let cancelled := manager.cancelIdleClose vaultPath
  match cancelled.sessions.get vaultPath with
  | none => (cancelled, .settled)
  | some session =>
      if cancelled.isSessionInUse session then (cancelled, .settled)
      else if (cancelled.store session).persistFailed then (cancelled, .settled)
      else
        ({ cancelled with sessions := cancelled.sessions.delete vaultPath },
          .closing vaultPath session)

/-- The first mutation of the queue begins. -/
def begin_ (manager : Manager) : Mutation → Manager × Work
  | .moveSession fromPath toPath =>
      (manager, .statFile fromPath toPath (manager.sessions.get fromPath))
  | .moveSessionSubtree fromFolder toFolder => (manager, .statFolder fromFolder toFolder)
  | .deleteSession path => manager.removeNext false false [path]
  | .deleteSessionSubtree folderPath =>
      manager.removeNext false true
        ((manager.sessions.entries.map Prod.fst).filter fun path => isUnder folderPath path)
  | .withStablePath vaultPath => (manager, .stable (manager.sessions.get vaultPath))
  | .closeSession vaultPath => manager.closeSessionUnlocked vaultPath

/-- One session of a move is prepared: it awaits its open, stops watching and flushes. -/
def prepareBranch (manager : Manager) (branch : Branch) (succeeds : Bool) :
    Option (Manager × Stage) :=
  let session := manager.store branch.session
  match branch.stage, succeeds with
  | .opening, true =>
      if session.deleted then some (manager, .failed)
      else if session.opened then
        some (manager.update branch.session Managed.stopWatching, .flushing)
      else none
  | .opening, false => if session.isOpened then none else some (manager, .failed)
  | .flushing, true => some (manager, .prepared)
  | .flushing, false => some (manager.update branch.session Managed.resumeWatching, .failed)
  | _, _ => none

/-- The move on disk has ended for one session. -/
def transitBranch (manager : Manager) (layout : Layout) (moved : Bool) (branch : Branch) :
    Manager × Branch :=
  match branch.stage with
  | .moving =>
      if (manager.store branch.session).deleted then (manager, { branch with stage := .failed })
      else if moved then
        (manager.update branch.session fun session => session.rebind layout branch.toPath,
          { branch with stage := .writing })
      else
        (manager.update branch.session Managed.startWatching, { branch with stage := .failed })
  | _ => (manager, branch)

/-- The move on disk has ended; every session that awaits it goes on. -/
def transit (manager : Manager) (layout : Layout) (moved : Bool) :
    List Branch → Manager × List Branch
  | [] => (manager, [])
  | branch :: branches =>
      let first := manager.transitBranch layout moved branch
      let rest := first.1.transit layout moved branches
      (rest.1, first.2 :: rest.2)

/-- The deletion of one session goes on. -/
def remove (manager : Manager) (removal : Removal) (paths : List JsString)
    (diskDeleted subtree succeeds : Bool) : Option (Manager × Work) :=
  let session := manager.store removal.session
  match removal.stage, succeeds with
  | .opening, true =>
      if session.deleted then some (manager, .settled)
      else if session.opened then
        some (manager.update removal.session Managed.stopWatching,
          .removing { removal with stage := .flushing } paths diskDeleted subtree)
      else none
  | .opening, false => if session.isOpened then none else some (manager, .settled)
  | .flushing, true =>
      some (manager, .removing { removal with stage := .onDisk } paths diskDeleted subtree)
  | .onDisk, true =>
      some (manager, .removing { removal with stage := .state } paths true subtree)
  | .onDisk, false =>
      if diskDeleted then none
      else some (manager.update removal.session Managed.resumeWatching, .settled)
  | .flushing, false | .state, false =>
      some (manager.update removal.session Managed.resumeWatching, .settled)
  | .state, true =>
      let deleted := manager.markDeleted removal.session
      some ({ deleted with sessions := deleted.sessions.delete removal.path }.removeNext
        diskDeleted subtree paths)

end Manager

/-- What the await of a mutation brings. -/
inductive WorkLabel where
  /-- The stat finds a file, or a folder, of the kind that is moved. -/
  | stat (found : Bool)
  /-- The session of a branch takes its next step. -/
  | branch (index : Nat) (succeeds : Bool)
  /-- The preparations of all branches have resolved. -/
  | proceed
  /-- What the mutation waits for ends: a callback, a deletion step or a close. -/
  | ends (succeeds : Bool)
  deriving DecidableEq, Repr

namespace Manager

/-- Put a branch of a move at another stage. -/
def setStage (branches : List Branch) (index : Nat) (branch : Branch) (stage : Stage) :
    List Branch :=
  branches.set index { branch with stage := stage }

/-- A mutation goes on up to its next await. -/
def workStep (manager : Manager) (layout : Layout) : Work → WorkLabel → Option (Manager × Work)
  | .statFile fromPath toPath session, .stat found =>
      if !found then some (manager, .onDisk)
      else
        let destination := manager.sessions.get toPath
        if destination.isSome ∧ destination ≠ session then some (manager, .settled)
        else
          match session with
          | none => some (manager, .onDisk)
          | some session => some (manager, .preparing [⟨session, fromPath, toPath, .opening⟩])
  | .statFolder fromFolder toFolder, .stat found =>
      if !found then some (manager, .onDisk)
      else
        let branches := manager.branches fromFolder toFolder
        if manager.destinationCollision branches toFolder then some (manager, .settled)
        else if branches.isEmpty then some (manager, .onDisk)
        else some (manager, .preparing branches)
  | .onDisk, .ends _ => some (manager, .settled)
  | .preparing branches, .branch index succeeds =>
      match branches[index]? with
      | none => none
      | some branch =>
          (manager.prepareBranch branch succeeds).map fun next =>
            (next.1, .preparing (setStage branches index branch next.2))
  | .preparing branches, .proceed =>
      if branches.all fun branch => branch.stage = .prepared then
        some (manager, .moving
          (branches.map fun branch =>
            { branch with
              stage := if (manager.store branch.session).deleted then .failed else .moving })
          true)
      else none
  | .moving branches true, .ends moved =>
      let next := manager.transit layout moved branches
      some (next.1, .moving next.2 false)
  | .moving branches diskPending, .branch index succeeds =>
      match branches[index]? with
      | none => none
      | some branch =>
          if branch.stage = .writing then
            if succeeds then
              some ((manager.update branch.session Managed.startWatching).rekeySession
                  branch.fromPath branch.toPath branch.session,
                .moving (setStage branches index branch .done) diskPending)
            else some (manager, .moving (setStage branches index branch .failed) diskPending)
          else none
  | .removing removal paths diskDeleted subtree, .ends succeeds =>
      manager.remove removal paths diskDeleted subtree succeeds
  | .removingBare paths, .ends succeeds =>
      some (if succeeds then manager.removeNext true true paths else (manager, .settled))
  | .stable _, .ends _ => some (manager, .settled)
  | .closing vaultPath session, .ends succeeds =>
      if succeeds then
        if (manager.store session).persistFailed then none
        else some (manager.update session Managed.stopWatching, .settled)
      else if (manager.store session).persistFailed then
        some ({ manager with sessions := manager.sessions.set vaultPath session }, .settled)
      else some (manager, .settled)
  | _, _ => none

end Manager

/-- The work has nothing to undo when it ends. -/
def Work.mayRest : Work → Bool
  | .preparing _ | .moving _ _ | .settled => false
  | .removing removal _ _ _ => removal.stage = .opening
  | _ => true

/-- What one step of a mutation's work does. -/
inductive Manager.Works (layout : Layout) (manager : Manager) :
    Work → WorkLabel → Manager → Work → Prop where
  | rest {work next : Work} {label : WorkLabel} : work.mayRest = true →
      next = .onDisk ∨ next = .settled → Works layout manager work label manager next
  | prepareFile {fromPath toPath : JsString} {session : Nat} {label : WorkLabel} :
      manager.sessions.get toPath = none ∨ manager.sessions.get toPath = some session →
      Works layout manager (.statFile fromPath toPath (some session)) label manager
        (.preparing [⟨session, fromPath, toPath, .opening⟩])
  | prepareFolder {fromFolder toFolder : JsString} {label : WorkLabel} :
      manager.branches fromFolder toFolder ≠ [] →
      Works layout manager (.statFolder fromFolder toFolder) label manager
        (.preparing (manager.branches fromFolder toFolder))
  | openFails {branches : List Branch} {index : Nat} {branch : Branch} {succeeds : Bool} :
      branches[index]? = some branch → branch.stage = .opening →
      (manager.store branch.session).opened = false ∨
        (manager.store branch.session).deleted = true →
      succeeds = false ∨ (manager.store branch.session).deleted = true →
      Works layout manager (.preparing branches) (.branch index succeeds) manager
        (.preparing (Manager.setStage branches index branch .failed))
  | stopWatching {branches : List Branch} {index : Nat} {branch : Branch} :
      branches[index]? = some branch → branch.stage = .opening →
      (manager.store branch.session).deleted = false →
      (manager.store branch.session).opened = true →
      Works layout manager (.preparing branches) (.branch index true)
        (manager.update branch.session Managed.stopWatching)
        (.preparing (Manager.setStage branches index branch .flushing))
  | flushed {branches : List Branch} {index : Nat} {branch : Branch} :
      branches[index]? = some branch → branch.stage = .flushing →
      Works layout manager (.preparing branches) (.branch index true) manager
        (.preparing (Manager.setStage branches index branch .prepared))
  | flushFails {branches : List Branch} {index : Nat} {branch : Branch} :
      branches[index]? = some branch → branch.stage = .flushing →
      Works layout manager (.preparing branches) (.branch index false)
        (manager.update branch.session Managed.resumeWatching)
        (.preparing (Manager.setStage branches index branch .failed))
  | proceed {branches : List Branch} : (∀ branch ∈ branches, branch.stage = .prepared) →
      Works layout manager (.preparing branches) .proceed manager
        (.moving (branches.map fun branch =>
          { branch with
            stage := if (manager.store branch.session).deleted then .failed else .moving }) true)
  | transit {branches : List Branch} {moved : Bool} :
      Works layout manager (.moving branches true) (.ends moved)
        (manager.transit layout moved branches).1
        (.moving (manager.transit layout moved branches).2 false)
  | rekeyed {branches : List Branch} {diskPending : Bool} {index : Nat} {branch : Branch} :
      branches[index]? = some branch → branch.stage = .writing →
      Works layout manager (.moving branches diskPending) (.branch index true)
        ((manager.update branch.session Managed.startWatching).rekeySession branch.fromPath
          branch.toPath branch.session)
        (.moving (Manager.setStage branches index branch .done) diskPending)
  | writeFails {branches : List Branch} {diskPending : Bool} {index : Nat} {branch : Branch} :
      branches[index]? = some branch → branch.stage = .writing →
      Works layout manager (.moving branches diskPending) (.branch index false) manager
        (.moving (Manager.setStage branches index branch .failed) diskPending)
  | removeStops {removal : Removal} {paths : List JsString} {diskDeleted subtree : Bool}
      {label : WorkLabel} : removal.stage = .opening →
      Works layout manager (.removing removal paths diskDeleted subtree) label
        (manager.update removal.session Managed.stopWatching)
        (.removing { removal with stage := .flushing } paths diskDeleted subtree)
  | removeGoesOn {removal : Removal} {paths : List JsString} {diskDeleted next subtree : Bool}
      {label : WorkLabel} {stage : RemovalStage} : removal.stage ≠ .opening → stage ≠ .opening →
      Works layout manager (.removing removal paths diskDeleted subtree) label manager
        (.removing { removal with stage := stage } paths next subtree)
  | removeFails {removal : Removal} {paths : List JsString} {diskDeleted subtree : Bool}
      {label : WorkLabel} :
      Works layout manager (.removing removal paths diskDeleted subtree) label
        (manager.update removal.session Managed.resumeWatching) .settled
  | removed {removal : Removal} {paths : List JsString} {diskDeleted subtree : Bool}
      {label : WorkLabel} :
      Works layout manager (.removing removal paths diskDeleted subtree) label
        ({ manager.markDeleted removal.session with
          sessions := (manager.markDeleted removal.session).sessions.delete
            removal.path }.removeNext diskDeleted subtree paths).1
        ({ manager.markDeleted removal.session with
          sessions := (manager.markDeleted removal.session).sessions.delete
            removal.path }.removeNext diskDeleted subtree paths).2
  | removedBare {paths : List JsString} {label : WorkLabel} :
      Works layout manager (.removingBare paths) label (manager.removeNext true true paths).1
        (manager.removeNext true true paths).2
  | closed {vaultPath : JsString} {session : Nat} {label : WorkLabel} :
      (manager.store session).persistFailed = false →
      Works layout manager (.closing vaultPath session) label
        (manager.update session Managed.stopWatching) .settled
  | closeFails {vaultPath : JsString} {session : Nat} :
      (manager.store session).persistFailed = true →
      Works layout manager (.closing vaultPath session) (.ends false)
        { manager with sessions := manager.sessions.set vaultPath session } .settled

namespace Manager

section Works

variable {layout : Layout} {manager next : Manager} {nextWork : Work}

/-- The stat of the file that is moved. -/
theorem works_statFile {fromPath toPath : JsString} {session : Option Nat} {found : Bool}
    (stepped : manager.workStep layout (.statFile fromPath toPath session) (.stat found) =
      some (next, nextWork)) :
    manager.Works layout (.statFile fromPath toPath session) (.stat found) next nextWork := by
  unfold workStep at stepped
  dsimp only at stepped
  split at stepped
  · cases stepped
    exact .rest rfl (.inl rfl)
  · split at stepped
    · cases stepped
      exact .rest rfl (.inr rfl)
    · rename_i free
      split at stepped
      · cases stepped
        exact .rest rfl (.inl rfl)
      · rename_i session
        cases stepped
        apply Works.prepareFile
        cases destination : manager.sessions.get toPath with
        | none => exact .inl rfl
        | some other =>
            right
            rw [destination] at free
            by_contra different
            exact free ⟨rfl, different⟩

/-- The stat of the folder that is moved. -/
theorem works_statFolder {fromFolder toFolder : JsString} {found : Bool}
    (stepped : manager.workStep layout (.statFolder fromFolder toFolder) (.stat found) =
      some (next, nextWork)) :
    manager.Works layout (.statFolder fromFolder toFolder) (.stat found) next nextWork := by
  unfold workStep at stepped
  dsimp only at stepped
  split at stepped
  · cases stepped
    exact .rest rfl (.inl rfl)
  · split at stepped
    · cases stepped
      exact .rest rfl (.inr rfl)
    · split at stepped
      · cases stepped
        exact .rest rfl (.inl rfl)
      · rename_i present
        cases stepped
        exact .prepareFolder fun empty => present (by rw [empty]; rfl)

/-- A branch of a move prepares its session. -/
theorem works_prepareBranch {branches : List Branch} {index : Nat} {branch : Branch}
    {succeeds : Bool} {stage : Stage} (found : branches[index]? = some branch)
    (prepared : manager.prepareBranch branch succeeds = some (next, stage)) :
    manager.Works layout (.preparing branches) (.branch index succeeds) next
      (.preparing (setStage branches index branch stage)) := by
  unfold prepareBranch at prepared
  dsimp only at prepared
  split at prepared
  · rename_i opening
    split at prepared
    · rename_i deleted
      cases prepared
      exact .openFails found opening (.inr deleted) (.inr deleted)
    · rename_i live
      split at prepared
      · rename_i opened
        cases prepared
        exact .stopWatching found opening (Bool.eq_false_iff.mpr live) opened
      · cases prepared
  · rename_i opening
    split at prepared
    · cases prepared
    · rename_i shut
      cases prepared
      refine .openFails found opening ?_ (.inl rfl)
      unfold Managed.isOpened at shut
      cases opened : (manager.store branch.session).opened with
      | false => exact .inl rfl
      | true => simpa [opened] using shut
  · rename_i flushing
    cases prepared
    exact .flushed found flushing
  · rename_i flushing
    cases prepared
    exact .flushFails found flushing
  · cases prepared

/-- A branch of a move writes its session to the new path. -/
theorem works_writeBranch {branches : List Branch} {diskPending : Bool} {index : Nat}
    {branch : Branch} (found : branches[index]? = some branch) (writing : branch.stage = .writing)
    {succeeds : Bool}
    (stepped : (if succeeds then
        some ((manager.update branch.session Managed.startWatching).rekeySession
            branch.fromPath branch.toPath branch.session,
          Work.moving (setStage branches index branch .done) diskPending)
      else some (manager, .moving (setStage branches index branch .failed) diskPending)) =
        some (next, nextWork)) :
    manager.Works layout (.moving branches diskPending) (.branch index succeeds) next nextWork := by
  cases succeeds with
  | true =>
      cases stepped
      exact .rekeyed found writing
  | false =>
      cases stepped
      exact .writeFails found writing

/-- The deletion of one session. -/
theorem works_remove {removal : Removal} {paths : List JsString}
    {diskDeleted subtree succeeds : Bool}
    (stepped : manager.remove removal paths diskDeleted subtree succeeds = some (next, nextWork)) :
    manager.Works layout (.removing removal paths diskDeleted subtree) (.ends succeeds) next
      nextWork := by
  unfold remove at stepped
  dsimp only at stepped
  split at stepped
  · rename_i opening
    split at stepped
    · cases stepped
      exact .rest (by simpa [Work.mayRest] using opening) (.inr rfl)
    · split at stepped
      · cases stepped
        exact .removeStops opening
      · cases stepped
  · rename_i opening
    split at stepped
    · cases stepped
    · cases stepped
      exact .rest (by simpa [Work.mayRest] using opening) (.inr rfl)
  · rename_i flushing
    cases stepped
    exact .removeGoesOn (by rw [flushing]; nofun) nofun
  · rename_i onDisk
    cases stepped
    exact .removeGoesOn (by rw [onDisk]; nofun) nofun
  · split at stepped
    · cases stepped
    · cases stepped
      exact .removeFails
  · cases stepped
    exact .removeFails
  · cases stepped
    exact .removeFails
  · rw [← Prod.eta (Manager.removeNext _ _ _ _)] at stepped
    cases stepped
    exact .removed

/-- The deletion of a path without a session. -/
theorem works_removeBare {paths : List JsString} {succeeds : Bool}
    (stepped : manager.workStep layout (.removingBare paths) (.ends succeeds) =
      some (next, nextWork)) :
    manager.Works layout (.removingBare paths) (.ends succeeds) next nextWork := by
  unfold workStep at stepped
  dsimp only at stepped
  split at stepped
  · rw [← Prod.eta (manager.removeNext true true paths)] at stepped
    cases stepped
    exact .removedBare
  · cases stepped
    exact .rest rfl (.inr rfl)

/-- The close of a session. -/
theorem works_close {vaultPath : JsString} {session : Nat} {succeeds : Bool}
    (stepped : manager.workStep layout (.closing vaultPath session) (.ends succeeds) =
      some (next, nextWork)) :
    manager.Works layout (.closing vaultPath session) (.ends succeeds) next nextWork := by
  unfold workStep at stepped
  dsimp only at stepped
  split at stepped
  · split at stepped
    · cases stepped
    · rename_i sound
      cases stepped
      exact .closed (Bool.eq_false_iff.mpr sound)
  · rename_i fails
    split at stepped
    · rename_i failed
      cases stepped
      rw [Bool.eq_false_iff.mpr fails]
      exact .closeFails failed
    · cases stepped
      exact .rest rfl (.inr rfl)

end Works

/-- **Steps of a mutation.** -/
theorem works_of_workStep {layout : Layout} {manager next : Manager}
    {work nextWork : Work} {label : WorkLabel}
    (stepped : manager.workStep layout work label = some (next, nextWork)) :
    manager.Works layout work label next nextWork := by
  have whole := stepped
  unfold workStep at stepped
  split at stepped
  case h_1 => exact works_statFile whole
  case h_2 => exact works_statFolder whole
  case h_3 =>
    cases stepped
    exact .rest rfl (.inr rfl)
  case h_4 branches index succeeds =>
    split at stepped
    · cases stepped
    · rename_i branch found
      obtain ⟨⟨result, stage⟩, prepared, same⟩ := Option.map_eq_some_iff.mp stepped
      cases same
      exact works_prepareBranch found prepared
  case h_5 branches =>
    split at stepped
    · rename_i prepared
      cases stepped
      exact .proceed fun branch member => by
        simpa using List.all_eq_true.mp prepared branch member
    · cases stepped
  case h_6 =>
    cases stepped
    exact .transit
  case h_7 branches diskPending index succeeds _ =>
    split at stepped
    · cases stepped
    · rename_i branch found
      split at stepped
      · rename_i writing
        exact works_writeBranch found writing stepped
      · cases stepped
  case h_8 => exact works_remove stepped
  case h_9 => exact works_removeBare whole
  case h_10 =>
    cases stepped
    exact .rest rfl (.inr rfl)
  case h_11 => exact works_close whole
  case h_12 => cases stepped

end Manager

/-- The steps of the manager, of its callers and of its sessions. -/
inductive ManagerLabel where
  /-- A client is given the session of a path that is available. -/
  | attachClientSession (vaultPath : JsString)
  /-- The lease of a client is released. -/
  | release (index : Nat)
  /-- The wait of `withSession` for an available path ends. -/
  | awaitAvailable (vaultPath : JsString)
  /-- `withSession` goes on after the wait. -/
  | withSession (vaultPath : JsString)
  /-- The operation of a `withSession` ends. -/
  | finishOperation (index : Nat)
  /-- A session has loaded its file. -/
  | opened (session : Nat)
  /-- A session finds its file missing. -/
  | missing (session : Nat)
  /-- A save of a session fails, or succeeds again. -/
  | persisted (session : Nat) (failed : Bool)
  /-- The idle timer of a path fires. -/
  | idleTimer (vaultPath : JsString)
  | call (mutation : Mutation)
  /-- The first mutation of the queue begins. -/
  | begin_
  | work (label : WorkLabel)
  /-- The promise of the running mutation is settled. -/
  | settle
  /-- Something a settled mutation has left running goes on. -/
  | detached (index : Nat) (label : WorkLabel)
  deriving DecidableEq, Repr

/-- The machine of the manager. -/
def managerMachine (layout : Layout) : Machine Manager ManagerLabel where
  step manager label :=
    match label with
    | .attachClientSession vaultPath => manager.attachClientSession layout vaultPath
    | .release index => manager.release index
    | .awaitAvailable vaultPath =>
        if manager.hasPathReservation vaultPath then none
        else some { manager with available := vaultPath :: manager.available }
    | .withSession vaultPath => manager.withSession layout vaultPath
    | .finishOperation index => manager.finishOperation index
    | .opened session =>
        if session < manager.fresh ∧ ¬ (manager.store session).opened then
          some (manager.update session Managed.open_)
        else none
    | .missing session =>
        if (manager.store session).isOpened then some (manager.markDeleted session) else none
    | .persisted session failed =>
        if (manager.store session).isOpened then
          some (manager.update session fun managed => { managed with persistFailed := failed })
        else none
    | .idleTimer vaultPath =>
        if vaultPath ∈ manager.idleCloseTimers then
          some ((manager.cancelIdleClose vaultPath).call (.closeSession vaultPath))
        else none
    | .call mutation =>
        match mutation with
        | .closeSession _ => none
        | _ => some (manager.call mutation)
    | .begin_ =>
        match manager.running, manager.queue with
        | none, call :: _ =>
            let begun := manager.begin_ call.mutation
            some { begun.1 with running := some begun.2 }
        | _, _ => none
    | .work label =>
        match manager.running with
        | none => none
        | some work =>
            (manager.workStep layout work label).map fun next =>
              { next.1 with running := some next.2 }
    | .settle =>
        match manager.running, manager.queue with
        | some work, call :: queue =>
            if work.isSettled then
              some { manager with
                pathReservations :=
                  manager.pathReservations.filter fun entry => entry.1 ≠ call.ticket
                queue := queue
                running := none
                detached :=
                  if work.isFinished then manager.detached else manager.detached ++ [work] }
            else none
        | _, _ => none
    | .detached index label =>
        match manager.detached[index]? with
        | none => none
        | some work =>
            (manager.workStep layout work label).map fun next =>
              { next.1 with detached := next.1.detached.set index next.2 }

end Kb1Daemon
