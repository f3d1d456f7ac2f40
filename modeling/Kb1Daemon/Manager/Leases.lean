import Kb1Daemon.Manager.Keys

/-! # Sessions in use are not closed

The manager counts the clients and the operations of each session. A session that nobody
uses is closed when its idle timer fires, unless its content is not saved. Then the
session stays, and no timer is armed again: if a later save succeeds, an open session
that nobody uses stays in the map for good (`unattended_session`). A call of `withSession`
that finds its path reserved again also drops the timer. In every run without such a step
the counts are exact, an idle close spares the sessions in use and those that are not
saved, and every open unused session has an idle timer or an idle close to come
(`leases_counted`).
-/

namespace Kb1Daemon

open JsString

/-- The lease or the operation uses the session. -/
def SessionUse.isOf (session : Nat) (use : SessionUse) : Bool :=
  use.session = session && !use.ended

namespace Manager

/-- The mutations that have not begun. -/
def waiting (manager : Manager) : List MutationCall :=
  match manager.running with
  | none => manager.queue
  | some _ => manager.queue.tail

/-- An idle close of the path is to come. -/
def IsClosing (manager : Manager) (vaultPath : JsString) : Prop :=
  vaultPath ∈ manager.idleCloseTimers ∨
    ∃ call ∈ manager.waiting, call.mutation = .closeSession vaultPath

/-- An idle close leaves an unused session that is not saved, or `withSession` drops the
idle timer of an unused session whose path has been reserved again. -/
def lapses (manager : Manager) : ManagerLabel → Bool
  | .begin_ =>
      match manager.queue.head? with
      | some ⟨_, .closeSession vaultPath⟩ =>
          (manager.sessions.get vaultPath).any fun session =>
            !manager.isSessionInUse session && (manager.store session).persistFailed
      | _ => false
  | .work (.ends false) =>
      match manager.running with
      | some (.closing _ session) => (manager.store session).persistFailed
      | _ => false
  | .withSession vaultPath =>
      manager.hasPathReservation vaultPath && manager.idleCloseTimers.contains vaultPath &&
        (manager.sessions.get vaultPath).any fun session => !manager.isSessionInUse session
  | _ => false

/-- **Leases.** The counts are exact; an idle close takes out of the map, and closes, only
sessions that nobody uses and that are saved; and every other open session that nobody uses
has an idle close to come. -/
structure Leased (layout : Layout) (manager : Manager) : Prop where
  clients : ∀ session,
    manager.clientCounts session = manager.clients.countP (SessionUse.isOf session)
  operations : ∀ session,
    manager.operationCounts session = manager.operations.countP (SessionUse.isOf session)
  removes : ∀ call vaultPath next, manager.queue.head? = some call →
    call.mutation = .closeSession vaultPath →
    (managerMachine layout).step manager .begin_ = some next →
    ∀ path session, manager.sessions.Holds path session → ¬ next.sessions.Holds path session →
      manager.isSessionInUse session = false ∧ (manager.store session).persistFailed = false
  closes : ∀ vaultPath session label next, manager.running = some (.closing vaultPath session) →
    (managerMachine layout).step manager (.work label) = some next →
      manager.isSessionInUse session = false ∧
        ((manager.store session).persistFailed = false ∨
          next.sessions.Holds vaultPath session)
  timers : ∀ vaultPath session, manager.sessions.Holds vaultPath session →
    (manager.store session).isOpened = true → manager.isSessionInUse session = false →
    (manager.store session).persistFailed = false → manager.IsClosing vaultPath

/-- A session of the map that is not open is in use, and one that nobody uses has an idle
close to come. -/
def Attended (manager : Manager) (vaultPath : JsString) (session : Nat) : Prop :=
  ((manager.store session).opened = false → manager.isSessionInUse session = true) ∧
    ((manager.store session).isOpened = true → manager.isSessionInUse session = false →
      manager.IsClosing vaultPath)

/-- The counts are exact. -/
structure Counted (manager : Manager) : Prop where
  keyed : manager.Keyed
  clients : ∀ session,
    manager.clientCounts session = manager.clients.countP (SessionUse.isOf session)
  operations : ∀ session,
    manager.operationCounts session = manager.operations.countP (SessionUse.isOf session)
  unborn : ∀ session, manager.fresh ≤ session → manager.isSessionInUse session = false
  busy : manager.running ≠ none → manager.queue ≠ []
  closing : ∀ vaultPath session, manager.running = some (.closing vaultPath session) →
    manager.isSessionInUse session = false ∧ (manager.store session).opened = true

/-- Moreover every session of the map is attended. -/
structure Kept (manager : Manager) : Prop extends Counted manager where
  attended : ∀ vaultPath session, manager.sessions.Holds vaultPath session →
    manager.Attended vaultPath session

variable {layout : Layout}

/-- The counts of a session whose use is over. -/
theorem countP_ended {uses : List SessionUse} {index : Nat} {use : SessionUse}
    (found : uses[index]? = some use) (goes : use.ended = false) (session : Nat) :
    (uses.set index { use with ended := true }).countP (SessionUse.isOf session) =
      Function.update (fun other => uses.countP (SessionUse.isOf other)) use.session
        (uses.countP (SessionUse.isOf use.session) - 1) session := by
  obtain ⟨below, rfl⟩ := List.getElem?_eq_some_iff.mp found
  have passed : SessionUse.isOf session { uses[index] with ended := true } = false := by
    simp [SessionUse.isOf]
  rw [List.countP_set below, passed]
  by_cases same : session = uses[index].session
  · subst same
    rw [Function.update_self]
    have counted : SessionUse.isOf uses[index].session uses[index] = true := by
      simp [SessionUse.isOf, goes]
    rw [counted]
    rfl
  · rw [Function.update_of_ne same]
    have other : SessionUse.isOf session uses[index] = false := by
      simp [SessionUse.isOf, Ne.symm same]
    rw [other]
    rfl

/-- The counts when a session is given to somebody. -/
theorem countP_given (uses : List SessionUse) (vaultPath : JsString) (given session : Nat) :
    (uses ++ [(⟨given, vaultPath, false⟩ : SessionUse)]).countP (SessionUse.isOf session) =
      Function.update (fun other => uses.countP (SessionUse.isOf other)) given
        (uses.countP (SessionUse.isOf given) + 1) session := by
  rw [List.countP_append]
  by_cases same : session = given
  · subst same
    rw [Function.update_self]
    simp [SessionUse.isOf]
  · rw [Function.update_of_ne same]
    simp [SessionUse.isOf, Ne.symm same]

theorem isSessionInUse_eq_false {manager : Manager} {session : Nat} :
    manager.isSessionInUse session = false ↔
      manager.clientCounts session = 0 ∧ manager.operationCounts session = 0 := by
  unfold isSessionInUse
  rw [Bool.or_eq_false_iff, decide_eq_false_iff_not, decide_eq_false_iff_not, Nat.not_lt,
    Nat.not_lt, Nat.le_zero, Nat.le_zero]

theorem isSessionInUse_of_clients {manager : Manager} {session : Nat}
    (used : 0 < manager.clientCounts session) : manager.isSessionInUse session = true := by
  unfold isSessionInUse
  rw [decide_eq_true used, Bool.true_or]

theorem isSessionInUse_of_operations {manager : Manager} {session : Nat}
    (used : 0 < manager.operationCounts session) : manager.isSessionInUse session = true := by
  unfold isSessionInUse
  rw [decide_eq_true used, Bool.or_true]

theorem isSessionInUse_congr {manager next : Manager} (session : Nat)
    (clients : next.clientCounts = manager.clientCounts)
    (operations : next.operationCounts = manager.operationCounts) :
    next.isSessionInUse session = manager.isSessionInUse session := by
  unfold isSessionInUse
  rw [clients, operations]

/-- Nothing happens to the leases and the timers, and no session is opened. -/
structure Fades (manager next : Manager) : Prop extends Shrinks manager next where
  clientCounts : next.clientCounts = manager.clientCounts
  operationCounts : next.operationCounts = manager.operationCounts
  clients : next.clients = manager.clients
  operations : next.operations = manager.operations
  idleCloseTimers : next.idleCloseTimers = manager.idleCloseTimers
  opened : ∀ session, (next.store session).opened = (manager.store session).opened
  live : ∀ session, (next.store session).isOpened = true →
    (manager.store session).isOpened = true

theorem Fades.refl (manager : Manager) : manager.Fades manager :=
  ⟨.refl manager, rfl, rfl, rfl, rfl, rfl, fun _ => rfl, fun _ => id⟩

theorem Fades.trans {first second third : Manager} (before : first.Fades second)
    (after : second.Fades third) : first.Fades third where
  toShrinks := before.toShrinks.trans after.toShrinks
  clientCounts := after.clientCounts.trans before.clientCounts
  operationCounts := after.operationCounts.trans before.operationCounts
  clients := after.clients.trans before.clients
  operations := after.operations.trans before.operations
  idleCloseTimers := after.idleCloseTimers.trans before.idleCloseTimers
  opened session := (after.opened session).trans (before.opened session)
  live session opened := before.live session (after.live session opened)

/-- A change of one session that does not open it. -/
theorem fades_update (manager : Manager) (session : Nat) {change : Managed → Managed}
    (opened : ∀ managed, (change managed).opened = managed.opened)
    (live : ∀ managed, (change managed).isOpened = true → managed.isOpened = true) :
    manager.Fades (manager.update session change) := by
  refine ⟨⟨.refl _, rfl⟩, rfl, rfl, rfl, rfl, rfl,
    fun other => manager.store_update_field session other opened, fun other opened => ?_⟩
  by_cases same : other = session
  · subst same
    rw [store_update_self] at opened
    exact live _ opened
  · rw [store_update_of_ne manager same] at opened
    exact opened

theorem fades_stopWatching (manager : Manager) (session : Nat) :
    manager.Fades (manager.update session Managed.stopWatching) :=
  fades_update manager session (fun _ => rfl) fun _ => id

theorem fades_startWatching (manager : Manager) (session : Nat) :
    manager.Fades (manager.update session Managed.startWatching) :=
  fades_update manager session (fun _ => rfl) fun _ => id

theorem fades_resumeWatching (manager : Manager) (session : Nat) :
    manager.Fades (manager.update session Managed.resumeWatching) := by
  apply fades_update <;> intro managed <;> unfold Managed.resumeWatching <;> split
  · rfl
  · rfl
  · exact id
  · exact id

theorem fades_persisted (manager : Manager) (session : Nat) (failed : Bool) :
    manager.Fades
      (manager.update session fun managed => { managed with persistFailed := failed }) :=
  fades_update manager session (fun _ => rfl) fun _ => id

theorem fades_delete (manager : Manager) (vaultPath : JsString) :
    manager.Fades { manager with sessions := manager.sessions.delete vaultPath } :=
  ⟨shrinks_delete manager vaultPath, rfl, rfl, rfl, rfl, rfl, fun _ => rfl, fun _ => id⟩

theorem fades_markDeleted (manager : Manager) (session : Nat) :
    manager.Fades (manager.markDeleted session) := by
  unfold markDeleted
  split
  · exact .refl manager
  · have updated : manager.Fades (manager.update session Managed.markDeleted) := by
      apply fades_update <;> intro managed <;> unfold Managed.markDeleted <;> split
      · rfl
      · rfl
      · exact id
      · intro opened
        simp [Managed.isOpened] at opened
    exact updated.trans
      ⟨⟨Table.within_deleteValue _ _, rfl⟩, rfl, rfl, rfl, rfl, rfl, fun _ => rfl, fun _ => id⟩

theorem fades_removeNext (manager : Manager) (diskDeleted subtree : Bool)
    (paths : List JsString) :
    manager.Fades (manager.removeNext diskDeleted subtree paths).1 :=
  removeNext_induction .refl (fun manager path _ => (fades_delete manager path).trans) manager
    diskDeleted subtree paths

theorem fades_transit (manager : Manager) (moved : Bool) (branches : List Branch) :
    manager.Fades (manager.transit layout moved branches).1 := by
  induction branches generalizing manager with
  | nil => exact .refl manager
  | cons branch branches ih =>
      have first : manager.Fades (manager.transitBranch layout moved branch).1 := by
        unfold transitBranch
        split
        · split
          · exact .refl manager
          · split
            · exact @fades_update manager branch.session
                (fun managed => managed.rebind layout branch.toPath) (fun _ => rfl) fun _ => id
            · exact fades_startWatching manager branch.session
        · exact .refl manager
      exact first.trans (ih _)

theorem Counted.fades {manager next : Manager} (counted : manager.Counted)
    (fades : manager.Fades next) (keyed : next.Keyed)
    (busy : next.running ≠ none → next.queue ≠ [])
    (closing : ∀ vaultPath session, next.running = some (.closing vaultPath session) →
      manager.isSessionInUse session = false ∧ (manager.store session).opened = true) :
    next.Counted := by
  have uses : ∀ session, next.isSessionInUse session = manager.isSessionInUse session :=
    fun session => isSessionInUse_congr session fades.clientCounts fades.operationCounts
  refine ⟨keyed, ?_, ?_, ?_, busy, ?_⟩
  · rw [fades.clientCounts, fades.clients]
    exact counted.clients
  · rw [fades.operationCounts, fades.operations]
    exact counted.operations
  · intro session unborn
    rw [fades.fresh] at unborn
    rw [uses]
    exact counted.unborn session unborn
  · intro vaultPath session runs
    rw [uses, fades.opened]
    exact closing vaultPath session runs

/-- The leases after a step that does not touch them: what remains is which idle closes are
still to come. -/
theorem Kept.fades {manager next : Manager} (kept : manager.Kept) (fades : manager.Fades next)
    (keyed : next.Keyed) (busy : next.running ≠ none → next.queue ≠ [])
    (closing : ∀ vaultPath session, next.running = some (.closing vaultPath session) →
      manager.isSessionInUse session = false ∧ (manager.store session).opened = true)
    (waiting : ∀ vaultPath session, next.sessions.Holds vaultPath session →
      manager.isSessionInUse session = false → (∃ call ∈ manager.waiting,
        call.mutation = .closeSession vaultPath) → next.IsClosing vaultPath) : next.Kept := by
  refine ⟨kept.toCounted.fades fades keyed busy closing, fun vaultPath session held => ?_⟩
  have before := kept.attended vaultPath session (fades.sessions.holds held)
  unfold Attended
  rw [isSessionInUse_congr session fades.clientCounts fades.operationCounts, fades.opened]
  refine ⟨before.1, fun opened unused => ?_⟩
  rcases before.2 (fades.live session opened) unused with armed | queued
  · left
    rw [fades.idleCloseTimers]
    exact armed
  · exact waiting vaultPath session held unused queued

/-- The leases after a step that leaves the queue alone. -/
theorem Kept.stays {manager next : Manager} (kept : manager.Kept) (fades : manager.Fades next)
    (keyed : next.Keyed) (running : next.running = manager.running)
    (queue : next.queue = manager.queue) : next.Kept := by
  refine kept.fades fades keyed ?_ ?_ ?_
  · rw [running, queue]
    exact kept.busy
  · rw [running]
    exact kept.closing
  · intro vaultPath session _ _ queued
    right
    unfold Manager.waiting at *
    rw [running, queue]
    exact queued

/-- The leases after a step of the running mutation. -/
theorem Kept.goesOn {manager next : Manager} (kept : manager.Kept) {work nextWork : Work}
    (running : manager.running = some work) (fades : manager.Fades next)
    (queue : next.queue = manager.queue)
    (opens : ∀ vaultPath session, nextWork ≠ .closing vaultPath session)
    (keyed : { next with running := some nextWork }.Keyed) :
    { next with running := some nextWork }.Kept := by
  have waits : ∀ {call}, call ∈ manager.waiting →
      call ∈ waiting { next with running := some nextWork } := by
    intro call queued
    unfold waiting at queued ⊢
    rw [running] at queued
    dsimp only at queued ⊢
    rw [queue]
    exact queued
  refine kept.fades ⟨⟨fades.sessions, fades.fresh⟩, fades.clientCounts, fades.operationCounts,
    fades.clients, fades.operations, fades.idleCloseTimers, fades.opened, fades.live⟩ keyed ?_ ?_ ?_
  · intro _
    dsimp only
    rw [queue]
    exact kept.busy (by rw [running]; nofun)
  · intro vaultPath session runs
    exact absurd (Option.some.inj runs) (opens vaultPath session)
  · rintro vaultPath session _ _ ⟨call, queued, closes⟩
    exact .inr ⟨call, waits queued, closes⟩

theorem opened_of_isOpened {managed : Managed} (opened : managed.isOpened = true) :
    managed.opened = true := by
  unfold Managed.isOpened at opened
  exact (Bool.and_eq_true_iff.mp opened).1

/-- An idle timer is armed for a path whose session may have been released. -/
theorem Counted.scheduleIdleClose {manager : Manager} (counted : manager.Counted)
    (vaultPath : JsString)
    (others : ∀ path session, path ≠ vaultPath → manager.sessions.Holds path session →
      manager.Attended path session) : (manager.scheduleIdleClose vaultPath).Kept := by
  have keyed : (manager.scheduleIdleClose vaultPath).Keyed := by
    have same := mutations_scheduleIdleClose manager vaultPath
    exact counted.keyed.keeps (shrinks_scheduleIdleClose manager vaultPath)
      (congrArg MutationState.running same) (congrArg MutationState.detached same)
  unfold Manager.scheduleIdleClose at keyed ⊢
  cases found : manager.sessions.get vaultPath with
  | none =>
      refine ⟨counted, fun path session held => others path session ?_ held⟩
      rintro rfl
      exact Table.not_holds_of_get found session held
  | some session =>
      have here : ∀ {path other}, manager.sessions.Holds path other → path = vaultPath →
          other = session := by
        rintro path other held rfl
        exact Option.some.inj ((counted.keyed.unique.get_eq held).symm.trans found)
      rw [found] at keyed
      dsimp only at keyed ⊢
      split
      · rename_i used
        refine ⟨counted, fun path other held => ?_⟩
        by_cases same : path = vaultPath
        · obtain rfl := here held same
          exact ⟨fun _ => used, fun _ unused => absurd (used.symm.trans unused) nofun⟩
        · exact others path other same held
      · rename_i unused
        rw [if_neg unused] at keyed
        split
        · rename_i shut
          rw [if_pos shut] at keyed
          refine ⟨⟨keyed, counted.clients, counted.operations, counted.unborn, counted.busy,
            counted.closing⟩, fun path other held => ?_⟩
          obtain ⟨elsewhere, before⟩ := Table.holds_delete.mp held
          obtain ⟨shut, timers⟩ := others path other elsewhere before
          refine ⟨shut, fun opened unused => ?_⟩
          rcases timers opened unused with armed | queued
          · exact .inl (List.mem_filter.mpr ⟨armed, decide_eq_true elsewhere⟩)
          · exact .inr queued
        · rename_i opened
          rw [if_neg opened] at keyed
          refine ⟨⟨keyed, counted.clients, counted.operations, counted.unborn, counted.busy,
            counted.closing⟩, fun path other held => ?_⟩
          by_cases same : path = vaultPath
          · obtain rfl := here held same
            refine ⟨fun shut => ?_, fun _ _ => .inl ?_⟩
            · have open_ : (manager.store other).isOpened = true := by simpa using opened
              have opens := opened_of_isOpened open_
              exact absurd (opens.symm.trans shut) nofun
            · rw [same]
              exact List.mem_cons_self
          · obtain ⟨shut, timers⟩ := others path other same held
            refine ⟨shut, fun opened unused => ?_⟩
            rcases timers opened unused with armed | queued
            · exact .inl (List.mem_cons_of_mem _
                (List.mem_filter.mpr ⟨armed, decide_eq_true same⟩))
            · exact .inr queued

/-- A session whose counts have only fallen is in use only if it was. -/
theorem unused_of_le {manager next : Manager} {session : Nat}
    (clients : next.clientCounts session ≤ manager.clientCounts session)
    (operations : next.operationCounts session ≤ manager.operationCounts session)
    (unused : manager.isSessionInUse session = false) : next.isSessionInUse session = false := by
  obtain ⟨noClients, noOperations⟩ := isSessionInUse_eq_false.mp unused
  rw [noClients] at clients
  rw [noOperations] at operations
  exact isSessionInUse_eq_false.mpr ⟨Nat.le_zero.mp clients, Nat.le_zero.mp operations⟩

theorem update_sub_le (counts : Nat → Nat) (changed session : Nat) :
    Function.update counts changed (counts changed - 1) session ≤ counts session := by
  by_cases same : session = changed
  · subst same
    exact Nat.le_trans (Nat.le_of_eq (Function.update_self ..)) (Nat.sub_le _ _)
  · exact Nat.le_of_eq (Function.update_of_ne same ..)

/-- The leases after one use of a session is over: only its own entry needs attention. -/
theorem Kept.ended {manager : Manager} (kept : manager.Kept) (session : Nat)
    {clientCounts operationCounts : Nat → Nat} {clients operations : List SessionUse}
    (countedClients : ∀ other, clientCounts other = clients.countP (SessionUse.isOf other))
    (countedOperations : ∀ other,
      operationCounts other = operations.countP (SessionUse.isOf other))
    (fewerClients : ∀ other, clientCounts other ≤ manager.clientCounts other)
    (fewerOperations : ∀ other, operationCounts other ≤ manager.operationCounts other)
    (apart : ∀ other, other ≠ session → clientCounts other = manager.clientCounts other ∧
      operationCounts other = manager.operationCounts other) :
    Manager.Counted { manager with
      clientCounts := clientCounts
      operationCounts := operationCounts
      clients := clients
      operations := operations } ∧
    ∀ vaultPath other, manager.sessions.Holds vaultPath other → other ≠ session →
      Attended { manager with
        clientCounts := clientCounts
        operationCounts := operationCounts
        clients := clients
        operations := operations } vaultPath other := by
  have falls : ∀ other, manager.isSessionInUse other = false → isSessionInUse { manager with
      clientCounts := clientCounts
      operationCounts := operationCounts
      clients := clients
      operations := operations } other = false :=
    fun other => unused_of_le (fewerClients other) (fewerOperations other)
  refine ⟨⟨kept.keyed.keeps ⟨.refl _, rfl⟩ rfl rfl, countedClients, countedOperations,
    fun other unborn => falls other (kept.unborn other unborn), kept.busy,
    fun vaultPath other runs => ?_⟩, fun vaultPath other held different => ?_⟩
  · obtain ⟨unused, opened⟩ := kept.closing vaultPath other runs
    exact ⟨falls other unused, opened⟩
  · obtain ⟨sameClients, sameOperations⟩ := apart other different
    have uses : isSessionInUse { manager with
        clientCounts := clientCounts
        operationCounts := operationCounts
        clients := clients
        operations := operations } other = manager.isSessionInUse other := by
      simp only [isSessionInUse, sameClients, sameOperations]
    unfold Attended
    rw [uses]
    exact kept.attended vaultPath other held

/-- A session in use needs no attention. -/
theorem Counted.used {manager : Manager} (counted : manager.Counted) {session : Nat}
    (others : ∀ vaultPath other, manager.sessions.Holds vaultPath other → other ≠ session →
      manager.Attended vaultPath other)
    (used : manager.isSessionInUse session = true) : manager.Kept := by
  refine ⟨counted, fun vaultPath other held => ?_⟩
  by_cases same : other = session
  · subst same
    exact ⟨fun _ => used, fun _ unused => absurd (used.symm.trans unused) nofun⟩
  · exact others vaultPath other held same

/-- Other counts stay as they are. -/
theorem update_sub_of_ne {counts : Nat → Nat} {changed session : Nat}
    (different : session ≠ changed) (count : Nat) :
    Function.update counts changed count session = counts session :=
  Function.update_of_ne different ..

/-- The entries of a session lie under the path that is scheduled for it. -/
theorem path_ne_keyOf {manager : Manager} (keyed : manager.Keyed) {path fallback : JsString}
    {session other : Nat} (held : manager.sessions.Holds path other)
    (elsewhere : path ≠ (manager.sessions.keyOf session).getD fallback) : other ≠ session := by
  rintro rfl
  cases found : manager.sessions.keyOf other with
  | none => exact Table.not_holds_of_keyOf found path held
  | some key =>
      rw [found] at elsewhere
      exact elsewhere (keyed.injective path key other held (Table.holds_of_keyOf found))

theorem Kept.release {manager next : Manager} (kept : manager.Kept) {index : Nat}
    (released : manager.release index = some next) : next.Kept := by
  unfold Manager.release at released
  split at released
  · cases released
  · rename_i client found
    split at released
    · cases released
      exact kept
    · rename_i goes
      have counts : manager.clientCounts =
          fun other => manager.clients.countP (SessionUse.isOf other) := funext kept.clients
      have ends : ∀ other, Function.update manager.clientCounts client.session
          (manager.clientCounts client.session - 1) other =
            (manager.clients.set index { client with ended := true }).countP
              (SessionUse.isOf other) := by
        intro other
        rw [countP_ended found (Bool.eq_false_iff.mpr goes), counts]
      obtain ⟨counted, others⟩ := kept.ended client.session ends kept.operations
        (update_sub_le manager.clientCounts client.session) (fun _ => Nat.le_refl _)
        fun other different => ⟨update_sub_of_ne different _, rfl⟩
      dsimp only at released
      split at released
      · rename_i remain
        cases released
        refine counted.used others (isSessionInUse_of_clients ?_)
        dsimp only
        rw [Function.update_self]
        exact remain
      · split at released
        · rename_i operates
          cases released
          exact counted.used others (isSessionInUse_of_operations operates)
        · obtain rfl := Option.some.inj released
          refine counted.scheduleIdleClose _ fun path other elsewhere held => ?_
          exact others path other held (path_ne_keyOf kept.keyed held elsewhere)

theorem Kept.finishOperation {manager next : Manager} (kept : manager.Kept) {index : Nat}
    (finished : manager.finishOperation index = some next) : next.Kept := by
  unfold Manager.finishOperation at finished
  split at finished
  · cases finished
  · rename_i operation found
    split at finished
    · cases finished
    · rename_i goes
      have counts : manager.operationCounts =
          fun other => manager.operations.countP (SessionUse.isOf other) := funext kept.operations
      have ends : ∀ other, Function.update manager.operationCounts operation.session
          (manager.operationCounts operation.session - 1) other =
            (manager.operations.set index { operation with ended := true }).countP
              (SessionUse.isOf other) := by
        intro other
        rw [countP_ended found (Bool.eq_false_iff.mpr goes), counts]
      obtain ⟨counted, others⟩ := kept.ended operation.session kept.clients ends
        (fun _ => Nat.le_refl _) (update_sub_le manager.operationCounts operation.session)
        fun other different => ⟨rfl, update_sub_of_ne different _⟩
      dsimp only at finished
      split at finished
      · rename_i used
        cases finished
        exact counted.used others used
      · obtain rfl := Option.some.inj finished
        refine counted.scheduleIdleClose _ fun path other elsewhere held => ?_
        exact others path other held (path_ne_keyOf kept.keyed held elsewhere)

/-- What changes when a session is found or created. -/
theorem getSession_spec {manager got : Manager} (keyed : manager.Keyed) {vaultPath : JsString}
    {given : Nat} (obtained : manager.getSession layout vaultPath = (got, given)) :
    (∀ path session, got.sessions.Holds path session → session = given ∨
      path ≠ vaultPath ∧ session ≠ given ∧ manager.sessions.Holds path session) ∧
    (∀ session, session ≠ given → got.store session = manager.store session) ∧
    (∀ session, got.fresh ≤ session → session ≠ given ∧ manager.fresh ≤ session) ∧
    ∀ session, session < manager.fresh → (∀ path, ¬ manager.sessions.Holds path session) →
      session ≠ given := by
  unfold getSession at obtained
  dsimp only at obtained
  split at obtained
  · rename_i session found
    obtain ⟨rfl, rfl⟩ := Prod.mk.inj obtained
    have here : manager.sessions.Holds vaultPath session := Table.holds_of_get found
    refine ⟨fun path other held => ?_, fun _ _ => rfl, fun other unborn => ⟨?_, unborn⟩, ?_⟩
    · by_cases same : other = session
      · exact .inl same
      · refine .inr ⟨?_, same, held⟩
        rintro rfl
        exact same (keyed.unique.value_eq held here)
    · rintro rfl
      exact absurd (keyed.known vaultPath other here) (Nat.not_lt.mpr unborn)
    · rintro other _ absent rfl
      exact absent vaultPath here
  · obtain ⟨rfl, rfl⟩ := Prod.mk.inj obtained
    refine ⟨fun path session held => ?_, fun session different => ?_, fun session unborn => ?_,
      fun session below _ => Nat.ne_of_lt below⟩
    · rcases Table.holds_set.mp held with ⟨_, rfl⟩ | ⟨elsewhere, old⟩
      · exact .inl rfl
      · exact .inr ⟨elsewhere, Nat.ne_of_lt (keyed.known path session old), old⟩
    · exact Function.update_of_ne different ..
    · exact ⟨Nat.ne_of_gt unborn, Nat.le_of_succ_le unborn⟩

theorem getSession_keeps {manager got : Manager} {vaultPath : JsString} {given : Nat}
    (obtained : manager.getSession layout vaultPath = (got, given)) :
    got.idleCloseTimers = (manager.cancelIdleClose vaultPath).idleCloseTimers ∧
      got.clientCounts = manager.clientCounts ∧
      got.operationCounts = manager.operationCounts ∧
      got.clients = manager.clients ∧ got.operations = manager.operations := by
  unfold getSession at obtained
  dsimp only at obtained
  split at obtained <;> cases obtained <;> exact ⟨rfl, rfl, rfl, rfl, rfl⟩

/-- A session is given to a client or to an operation. -/
theorem Kept.given {manager got : Manager} (kept : manager.Kept) {vaultPath : JsString}
    {given : Nat} (obtained : manager.getSession layout vaultPath = (got, given))
    {clientCounts operationCounts : Nat → Nat} {clients operations : List SessionUse}
    (countedClients : ∀ session, clientCounts session = clients.countP (SessionUse.isOf session))
    (countedOperations : ∀ session,
      operationCounts session = operations.countP (SessionUse.isOf session))
    (used : 0 < clientCounts given ∨ 0 < operationCounts given)
    (apart : ∀ session, session ≠ given → clientCounts session = manager.clientCounts session ∧
      operationCounts session = manager.operationCounts session) :
    Manager.Kept { got with
      clientCounts := clientCounts
      operationCounts := operationCounts
      clients := clients
      operations := operations } := by
  obtain ⟨entries, stored, later, absent⟩ := getSession_spec kept.keyed obtained
  obtain ⟨timers, _⟩ := getSession_keeps obtained
  have same := @mutations_getSession layout manager vaultPath
  have keyed := @Keyed.getSession layout manager kept.keyed vaultPath
  rw [obtained] at same keyed
  have queue : got.queue = manager.queue := congrArg MutationState.queue same
  have running : got.running = manager.running := congrArg MutationState.running same
  have uses : ∀ session, session ≠ given → isSessionInUse { got with
      clientCounts := clientCounts
      operationCounts := operationCounts
      clients := clients
      operations := operations } session = manager.isSessionInUse session := by
    intro session different
    obtain ⟨sameClients, sameOperations⟩ := apart session different
    simp only [isSessionInUse, sameClients, sameOperations]
  have counted : Manager.Counted { got with
      clientCounts := clientCounts
      operationCounts := operationCounts
      clients := clients
      operations := operations } := by
    refine ⟨keyed.keeps ⟨.refl _, rfl⟩ rfl rfl, countedClients, countedOperations,
      fun session unborn => ?_, ?_, fun path session runs => ?_⟩
    · obtain ⟨different, before⟩ := later session unborn
      rw [uses session different]
      exact kept.unborn session before
    · dsimp only
      rw [queue, running]
      exact kept.busy
    · dsimp only at runs ⊢
      rw [running] at runs
      obtain ⟨known, nowhere⟩ := kept.keyed.tracks _ runs
      have different := absent session known nowhere
      rw [uses session different, stored session different]
      exact kept.closing path session runs
  have inUse : isSessionInUse { got with
      clientCounts := clientCounts
      operationCounts := operationCounts
      clients := clients
      operations := operations } given = true := by
    rcases used with client | operation
    · exact isSessionInUse_of_clients client
    · exact isSessionInUse_of_operations operation
  refine counted.used (fun path session held different => ?_) inUse
  rcases entries path session held with same | ⟨elsewhere, _, old⟩
  · exact absurd same different
  · obtain ⟨shut, waits⟩ := kept.attended path session old
    unfold Attended
    rw [uses session different]
    dsimp only
    rw [stored session different]
    refine ⟨shut, fun opened unused => ?_⟩
    unfold IsClosing Manager.waiting
    dsimp only
    rw [timers, running, queue]
    exact (waits opened unused).imp_left fun armed =>
      List.mem_filter.mpr ⟨armed, decide_eq_true elsewhere⟩

theorem Kept.attachClientSession {manager next : Manager} (kept : manager.Kept)
    {vaultPath : JsString}
    (attached : manager.attachClientSession layout vaultPath = some next) : next.Kept := by
  unfold Manager.attachClientSession at attached
  split at attached
  · cases attached
  · cases obtained : manager.getSession layout vaultPath with
    | mk got given =>
        rw [obtained] at attached
        obtain rfl := Option.some.inj attached
        obtain ⟨_, clientCounts, operationCounts, clients, operations⟩ := getSession_keeps obtained
        have counts : manager.clientCounts =
            fun other => manager.clients.countP (SessionUse.isOf other) := funext kept.clients
        refine kept.given obtained (fun session => ?_) (fun session => ?_) (.inl ?_)
          fun session different => ⟨?_, ?_⟩
        · rw [clients, clientCounts, countP_given, counts]
        · rw [operations, operationCounts]
          exact kept.operations session
        · rw [Function.update_self]
          exact Nat.succ_pos _
        · rw [Function.update_of_ne different, clientCounts]
        · rw [operationCounts]

theorem getSession_cancelIdleClose (manager : Manager) (vaultPath : JsString) :
    (manager.cancelIdleClose vaultPath).getSession layout vaultPath =
      manager.getSession layout vaultPath := by
  have twice : (manager.cancelIdleClose vaultPath).cancelIdleClose vaultPath =
      manager.cancelIdleClose vaultPath := by
    unfold cancelIdleClose
    dsimp only
    rw [List.filter_filter]
    simp only [Bool.and_self]
  unfold getSession
  rw [twice]

theorem Kept.withSession {manager next : Manager} (kept : manager.Kept) {vaultPath : JsString}
    (allowed : manager.lapses (.withSession vaultPath) = false)
    (resumed : manager.withSession layout vaultPath = some next) : next.Kept := by
  unfold Manager.withSession at resumed
  split at resumed
  · dsimp only at resumed
    split at resumed
    · rename_i reserved
      cases resumed
      have counted : Manager.Counted ({ manager with
          available := manager.available.erase vaultPath }.cancelIdleClose vaultPath) :=
        ⟨kept.keyed.keeps ⟨.refl _, rfl⟩ rfl rfl, kept.clients, kept.operations, kept.unborn,
          kept.busy, kept.closing⟩
      refine ⟨counted, fun path session held => ?_⟩
      obtain ⟨shut, waits⟩ := kept.attended path session held
      refine ⟨shut, fun opened unused => ?_⟩
      rcases waits opened unused with armed | queued
      · left
        refine List.mem_filter.mpr ⟨armed, decide_eq_true ?_⟩
        rintro rfl
        have found : manager.sessions.get path = some session := kept.keyed.unique.get_eq held
        have lapse : manager.lapses (.withSession path) = true := by
          have idle : manager.isSessionInUse session = false := unused
          have held : manager.hasPathReservation path = true := reserved
          unfold lapses
          dsimp only
          rw [held, found, List.contains_iff_mem.mpr armed, Option.any_some, idle]
          rfl
        exact absurd (lapse.symm.trans allowed) nofun
      · exact .inr queued
    · rename_i free
      have erased : Manager.Kept { manager with available := manager.available.erase vaultPath } :=
        kept.stays ⟨⟨.refl _, rfl⟩, rfl, rfl, rfl, rfl, rfl, fun _ => rfl, fun _ => id⟩
          (kept.keyed.keeps ⟨.refl _, rfl⟩ rfl rfl) rfl rfl
      rw [getSession_cancelIdleClose] at resumed
      cases obtained : { manager with
          available := manager.available.erase vaultPath }.getSession layout vaultPath with
      | mk got given =>
          rw [obtained] at resumed
          obtain rfl := Option.some.inj resumed
          obtain ⟨_, clientCounts, operationCounts, clients, operations⟩ :=
            getSession_keeps obtained
          have counts : manager.operationCounts =
              fun other => manager.operations.countP (SessionUse.isOf other) :=
            funext kept.operations
          refine erased.given obtained (fun session => ?_) (fun session => ?_) (.inr ?_)
            fun session different => ⟨?_, ?_⟩
          · rw [clients, clientCounts]
            exact kept.clients session
          · rw [operations, operationCounts, countP_given, counts]
          · rw [Function.update_self]
            exact Nat.succ_pos _
          · rw [clientCounts]
          · rw [Function.update_of_ne different, operationCounts]
  · cases resumed

theorem removeNext_ne_closing (manager : Manager) (diskDeleted subtree : Bool)
    (paths : List JsString) (vaultPath : JsString) (session : Nat) :
    (manager.removeNext diskDeleted subtree paths).2 ≠ .closing vaultPath session := by
  induction paths generalizing manager with
  | nil =>
      unfold removeNext
      split <;> intro closing <;> cases closing
  | cons path paths ih =>
      unfold removeNext
      split
      · split
        · exact ih manager
        · intro closing
          cases closing
      · split
        · exact ih _
        · intro closing
          cases closing

/-- A session is closed only by the idle close that begins with it. -/
theorem works_ne_closing {manager next : Manager} {work nextWork : Work} {label : WorkLabel}
    (works : manager.Works layout work label next nextWork) (vaultPath : JsString)
    (session : Nat) : nextWork ≠ .closing vaultPath session := by
  cases works with
  | rest quiet passed => rcases passed with rfl | rfl <;> nofun
  | removed => exact removeNext_ne_closing _ _ _ _ _ _
  | removedBare => exact removeNext_ne_closing _ _ _ _ _ _
  | _ => nofun

/-- What a step of a mutation does to the leases: nothing, unless it puts a session under
a key. -/
theorem fades_works {manager next : Manager} {work nextWork : Work} {label : WorkLabel}
    (works : manager.Works layout work label next nextWork) :
    manager.Fades next ∨
      (∃ branches diskPending index branch, work = .moving branches diskPending ∧
        branches[index]? = some branch ∧ branch.stage = .writing ∧
        nextWork = .moving (setStage branches index branch .done) diskPending ∧
        next = (manager.update branch.session Managed.startWatching).rekeySession branch.fromPath
          branch.toPath branch.session) ∨
      ∃ vaultPath session, work = .closing vaultPath session ∧ label = .ends false ∧
        (manager.store session).persistFailed = true := by
  cases works with
  | stopWatching => exact .inl (fades_stopWatching manager _)
  | flushFails => exact .inl (fades_resumeWatching manager _)
  | transit => exact .inl (fades_transit manager _ _)
  | rekeyed found writing => exact .inr (.inl ⟨_, _, _, _, rfl, found, writing, rfl, rfl⟩)
  | removeStops => exact .inl (fades_stopWatching manager _)
  | removeFails => exact .inl (fades_resumeWatching manager _)
  | @removed removal paths diskDeleted subtree =>
      exact .inl ((fades_markDeleted manager removal.session).trans
        ((fades_delete _ removal.path).trans (fades_removeNext _ diskDeleted subtree paths)))
  | removedBare => exact .inl (fades_removeNext manager _ _ _)
  | closed => exact .inl (fades_stopWatching manager _)
  | closeFails failed => exact .inr (.inr ⟨_, _, rfl, rfl, failed⟩)
  | _ => exact .inl (.refl manager)

/-- A moved session is put under its new path. -/
theorem Kept.rekeyed {manager : Manager} (kept : manager.Kept)
    {branches : List Branch} {diskPending : Bool} {index : Nat} {branch : Branch}
    (running : manager.running = some (.moving branches diskPending))
    (found : branches[index]? = some branch) (writing : branch.stage = .writing) :
    { (manager.update branch.session Managed.startWatching).rekeySession branch.fromPath
        branch.toPath branch.session with
      running := some (.moving (setStage branches index branch .done) diskPending) }.Kept := by
  have watches := fades_startWatching manager branch.session
  let moved : Manager :=
    { ((manager.update branch.session Managed.startWatching).cancelIdleClose
          branch.fromPath).cancelIdleClose branch.toPath with
      sessions := (manager.sessions.delete branch.fromPath).set branch.toPath branch.session
      running := some (.moving (setStage branches index branch .done) diskPending) }
  have counted : moved.Counted := by
    refine ⟨kept.keyed.moved running found writing rfl rfl rfl rfl, kept.clients, kept.operations,
      kept.unborn, fun _ => kept.busy (by rw [running]; nofun), fun path session closes => ?_⟩
    cases closes
  have others : ∀ path session, path ≠ branch.toPath → moved.sessions.Holds path session →
      moved.Attended path session := by
    intro path session elsewhere held
    rcases Table.holds_set.mp held with ⟨here, _⟩ | ⟨_, stays⟩
    · exact absurd here elsewhere
    · obtain ⟨apart, old⟩ := Table.holds_delete.mp stays
      obtain ⟨shut, waits⟩ := kept.attended path session old
      refine ⟨fun closed => shut ((watches.opened session).symm.trans closed),
        fun opened unused => ?_⟩
      rcases waits (watches.live session opened) unused with armed | queued
      · left
        exact List.mem_filter.mpr ⟨List.mem_filter.mpr ⟨armed, decide_eq_true apart⟩,
          decide_eq_true elsewhere⟩
      · right
        unfold Manager.waiting at queued
        rw [running] at queued
        exact queued
  unfold rekeySession
  dsimp only
  split
  · rename_i used
    refine counted.used (fun path session held different => ?_) used
    refine others path session ?_ held
    rintro rfl
    rcases Table.holds_set.mp held with ⟨_, same⟩ | ⟨elsewhere, _⟩
    · exact different same
    · exact elsewhere rfl
  · rw [← scheduleIdleClose_running]
    exact counted.scheduleIdleClose branch.toPath others

/-- **Steps of a mutation.** -/
theorem Kept.works {manager next : Manager} (kept : manager.Kept) {work nextWork : Work}
    {label : WorkLabel} (running : manager.running = some work)
    (scattered : manager.scatters work label = false)
    (lapsed : manager.lapses (.work label) = false)
    (works : manager.Works layout work label next nextWork) :
    { next with running := some nextWork }.Kept := by
  rcases fades_works works with fades | moved | ⟨vaultPath, session, rfl, rfl, failed⟩
  · exact kept.goesOn running fades (congrArg MutationState.queue (mutations_works works))
      (works_ne_closing works) (kept.keyed.works running scattered works)
  · obtain ⟨branches, diskPending, index, branch, rfl, found, writing, rfl, rfl⟩ := moved
    exact kept.rekeyed running found writing
  · unfold lapses at lapsed
    rw [running] at lapsed
    exact absurd (failed.symm.trans lapsed) nofun

/-- The idle close of a path begins. -/
theorem Kept.closes {manager : Manager} (kept : manager.Kept) {call : MutationCall}
    {queue : List MutationCall} {vaultPath : JsString} (queued : manager.queue = call :: queue)
    (mutation : call.mutation = .closeSession vaultPath)
    (keyed : { (manager.closeSessionUnlocked vaultPath).1 with
      running := some (manager.closeSessionUnlocked vaultPath).2 }.Keyed)
    (allowed : manager.lapses .begin_ = false)
    (waits : ∀ path, path ≠ vaultPath → manager.IsClosing path →
      path ∈ manager.idleCloseTimers ∨ ∃ other ∈ queue, other.mutation = .closeSession path) :
    { (manager.closeSessionUnlocked vaultPath).1 with
      running := some (manager.closeSessionUnlocked vaultPath).2 }.Kept := by
  have spared : ∀ session, manager.sessions.get vaultPath = some session →
      manager.isSessionInUse session = false →
        (manager.store session).persistFailed = false := by
    intro session found unused
    rw [Bool.eq_false_iff]
    intro failed
    have lapse : manager.lapses .begin_ = true := by
      obtain ⟨ticket, target⟩ := call
      obtain rfl : target = _ := mutation
      unfold lapses
      dsimp only
      rw [queued]
      dsimp only [List.head?_cons]
      rw [found, Option.any_some, unused, failed]
      rfl
    exact absurd (lapse.symm.trans allowed) nofun
  have goes : ∀ {next : Manager} {work : Work}, { next with running := some work }.Keyed →
      next.sessions.Within manager.sessions → next.fresh = manager.fresh →
      next.store = manager.store → next.clientCounts = manager.clientCounts →
      next.operationCounts = manager.operationCounts → next.clients = manager.clients →
      next.operations = manager.operations →
      next.idleCloseTimers = (manager.cancelIdleClose vaultPath).idleCloseTimers →
      next.queue = manager.queue →
      (∀ session, next.sessions.Holds vaultPath session →
        manager.isSessionInUse session = true) →
      (∀ path session, work = .closing path session →
        manager.isSessionInUse session = false ∧ (manager.store session).opened = true) →
        { next with running := some work }.Kept := by
    intro next work keyed within fresh store clientCounts operationCounts clients operations
      timers rest used closing
    have uses : ∀ session, isSessionInUse { next with running := some work } session =
        manager.isSessionInUse session :=
      fun session => isSessionInUse_congr session clientCounts operationCounts
    refine ⟨⟨keyed, ?_, ?_, fun session unborn => ?_, fun _ => ?_, fun path session runs => ?_⟩,
      fun path session held => ?_⟩
    · dsimp only
      rw [clientCounts, clients]
      exact kept.clients
    · dsimp only
      rw [operationCounts, operations]
      exact kept.operations
    · rw [uses]
      exact kept.unborn session (fresh ▸ unborn)
    · dsimp only
      rw [rest, queued]
      nofun
    · rw [uses]
      dsimp only
      rw [store]
      exact closing path session (Option.some.inj runs)
    · unfold Attended
      rw [uses]
      dsimp only
      rw [store]
      by_cases same : path = vaultPath
      · subst same
        have busy := used session held
        exact ⟨fun _ => busy, fun _ unused => absurd (busy.symm.trans unused) nofun⟩
      · obtain ⟨shut, closes⟩ := kept.attended path session (within.holds held)
        refine ⟨shut, fun opened unused => ?_⟩
        rcases waits path same (closes opened unused) with armed | later
        · left
          dsimp only
          rw [timers]
          exact List.mem_filter.mpr ⟨armed, decide_eq_true same⟩
        · right
          unfold Manager.waiting
          dsimp only
          rw [rest, queued]
          exact later
  unfold closeSessionUnlocked at keyed ⊢
  dsimp only at keyed ⊢
  cases found : (manager.cancelIdleClose vaultPath).sessions.get vaultPath with
  | none =>
      rw [found] at keyed
      refine goes keyed (.refl _) rfl rfl rfl rfl rfl rfl rfl rfl (fun session held => ?_) nofun
      exact absurd held (Table.not_holds_of_get found session)
  | some session =>
      rw [found] at keyed
      dsimp only at keyed ⊢
      have here : manager.sessions.Holds vaultPath session := Table.holds_of_get found
      split
      · rename_i used
        rw [if_pos used] at keyed
        refine goes keyed (.refl _) rfl rfl rfl rfl rfl rfl rfl rfl (fun other held => ?_) nofun
        rw [kept.keyed.unique.value_eq held here]
        exact used
      · rename_i unused
        rw [if_neg unused] at keyed
        have idle : manager.isSessionInUse session = false := Bool.eq_false_iff.mpr unused
        split
        · rename_i failed
          exact absurd (failed.symm.trans (spared session found idle)) nofun
        · rename_i sound
          rw [if_neg sound] at keyed
          refine goes keyed (Table.within_delete _ _) rfl rfl rfl rfl rfl rfl rfl rfl
            (fun other held => absurd rfl (Table.holds_delete.mp held).1) ?_
          rintro path other closing
          obtain ⟨rfl, rfl⟩ := Work.closing.inj closing
          refine ⟨idle, ?_⟩
          by_contra shut
          have used := (kept.attended _ _ here).1 (Bool.eq_false_iff.mpr shut)
          exact absurd (used.symm.trans idle) nofun

/-- The first mutation begins. -/
theorem Kept.begins {manager : Manager} (kept : manager.Kept) {call : MutationCall}
    {queue : List MutationCall} (idle : manager.running = none)
    (queued : manager.queue = call :: queue) (allowed : manager.lapses .begin_ = false) :
    { (manager.begin_ call.mutation).1 with
      running := some (manager.begin_ call.mutation).2 }.Kept := by
  have keyed := kept.keyed.begins call.mutation
  have same := mutations_begin manager call.mutation
  have waits : ∀ {vaultPath}, (∃ other ∈ manager.waiting,
      other.mutation = .closeSession vaultPath) → call.mutation = .closeSession vaultPath ∨
        ∃ other ∈ queue, other.mutation = .closeSession vaultPath := by
    rintro vaultPath ⟨other, listed, closes⟩
    unfold Manager.waiting at listed
    rw [idle, queued] at listed
    rcases List.mem_cons.mp listed with rfl | later
    · exact .inl closes
    · exact .inr ⟨other, later, closes⟩
  have begun : ∀ {next : Manager} {work : Work}, manager.Fades next →
      next.queue = manager.queue →
      (∀ vaultPath session, work ≠ .closing vaultPath session) →
      (∀ vaultPath, call.mutation ≠ .closeSession vaultPath) →
      { next with running := some work }.Keyed → { next with running := some work }.Kept := by
    intro next work fades rest opens differs keyed
    refine kept.fades ⟨⟨fades.sessions, fades.fresh⟩, fades.clientCounts, fades.operationCounts,
      fades.clients, fades.operations, fades.idleCloseTimers, fades.opened, fades.live⟩ keyed
      ?_ ?_ ?_
    · intro _
      dsimp only
      rw [rest, queued]
      nofun
    · intro vaultPath session runs
      exact absurd (Option.some.inj runs) (opens vaultPath session)
    · intro vaultPath session _ _ closes
      rcases waits closes with here | later
      · exact absurd here (differs vaultPath)
      · right
        unfold Manager.waiting
        dsimp only
        rw [rest, queued]
        exact later
  cases mutation : call.mutation with
  | moveSession fromPath toPath =>
      rw [mutation] at keyed
      exact begun (.refl manager) rfl nofun (by rw [mutation]; nofun) keyed
  | moveSessionSubtree fromFolder toFolder =>
      rw [mutation] at keyed
      exact begun (.refl manager) rfl nofun (by rw [mutation]; nofun) keyed
  | deleteSession path =>
      rw [mutation] at keyed same
      exact begun (fades_removeNext manager false false [path])
        (congrArg MutationState.queue same) (removeNext_ne_closing _ _ _ _)
        (by rw [mutation]; nofun) keyed
  | deleteSessionSubtree folderPath =>
      rw [mutation] at keyed same
      exact begun (fades_removeNext manager false true _) (congrArg MutationState.queue same)
        (removeNext_ne_closing _ _ _ _) (by rw [mutation]; nofun) keyed
  | withStablePath vaultPath =>
      rw [mutation] at keyed
      exact begun (.refl manager) rfl nofun (by rw [mutation]; nofun) keyed
  | closeSession vaultPath =>
      rw [mutation] at keyed
      refine kept.closes queued mutation keyed allowed fun path elsewhere closes => ?_
      refine closes.imp_right fun listed => ?_
      rcases waits listed with here | rest
      · rw [mutation] at here
        cases here
        exact absurd rfl elsewhere
      · exact rest

/-- A session has loaded its file; if the map holds it, it is in use. -/
theorem Kept.opens {manager : Manager} (kept : manager.Kept) {session : Nat}
    (keyed : (manager.update session Managed.open_).Keyed)
    (shut : ¬ (manager.store session).opened = true) :
    (manager.update session Managed.open_).Kept := by
  have stays : ∀ other, (manager.store other).opened = true →
      ((manager.update session Managed.open_).store other).opened = true := by
    intro other opened
    by_cases same : other = session
    · subst same
      rw [store_update_self]
      rfl
    · rw [store_update_of_ne manager same]
      exact opened
  refine ⟨⟨keyed, kept.clients, kept.operations, kept.unborn, kept.busy,
    fun path other runs => ?_⟩, fun path other held => ?_⟩
  · obtain ⟨unused, opened⟩ := kept.closing path other runs
    exact ⟨unused, stays other opened⟩
  · have before := kept.attended path other held
    by_cases same : other = session
    · subst same
      have used := before.1 (Bool.eq_false_iff.mpr shut)
      exact ⟨fun _ => used, fun _ unused => absurd (used.symm.trans unused) nofun⟩
    · unfold Attended
      rw [store_update_of_ne manager same]
      exact before

/-- A mutation is called. -/
theorem Kept.call {manager : Manager} (kept : manager.Kept) (mutation : Mutation)
    (timers : List JsString)
    (armed : ∀ path, path ∈ manager.idleCloseTimers →
      path ∈ timers ∨ mutation = .closeSession path) :
    ({ manager with idleCloseTimers := timers }.call mutation).Kept := by
  have queued : ∀ {other}, other ∈ manager.waiting →
      other ∈ ({ manager with idleCloseTimers := timers }.call mutation).waiting := by
    intro other listed
    unfold Manager.waiting Manager.call at *
    cases running : manager.running with
    | none =>
        rw [running] at listed
        exact List.mem_append_left _ listed
    | some work =>
        rw [running] at listed
        obtain ⟨first, rest, split⟩ := List.exists_cons_of_ne_nil
          (kept.busy (by rw [running]; nofun))
        dsimp only at listed ⊢
        rw [split] at listed ⊢
        exact List.mem_append_left _ listed
  have called : ⟨manager.ticket, mutation⟩ ∈
      ({ manager with idleCloseTimers := timers }.call mutation).waiting := by
    unfold Manager.waiting Manager.call
    cases running : manager.running with
    | none => exact List.mem_append_right _ (List.mem_singleton_self _)
    | some work =>
        obtain ⟨first, rest, split⟩ := List.exists_cons_of_ne_nil
          (kept.busy (by rw [running]; nofun))
        dsimp only
        rw [split]
        exact List.mem_append_right _ (List.mem_singleton_self _)
  refine ⟨⟨kept.keyed.keeps ⟨.refl _, rfl⟩ rfl rfl, kept.clients, kept.operations, kept.unborn,
    fun _ empty => ?_, kept.closing⟩, fun path session held => ?_⟩
  · exact absurd (List.append_eq_nil_iff.mp empty).2 nofun
  · obtain ⟨shut, closes⟩ := kept.attended path session held
    refine ⟨shut, fun opened unused => ?_⟩
    rcases closes opened unused with listed | ⟨other, listed, closes⟩
    · rcases armed path listed with stays | here
      · exact .inl stays
      · exact .inr ⟨_, called, here⟩
    · exact .inr ⟨other, queued listed, closes⟩

theorem Kept.step {manager next : Manager} {label : ManagerLabel} (kept : manager.Kept)
    (scattered : ¬ manager.Guards scatters label) (lapsed : manager.lapses label = false)
    (stepped : (managerMachine layout).step manager label = some next) : next.Kept := by
  have keyed : next.Keyed := kept.keyed.step scattered stepped
  cases label with
  | attachClientSession vaultPath => exact kept.attachClientSession stepped
  | release index => exact kept.release stepped
  | awaitAvailable vaultPath =>
      dsimp only [managerMachine] at stepped
      split at stepped
      · cases stepped
      · cases stepped
        exact kept.stays ⟨⟨.refl _, rfl⟩, rfl, rfl, rfl, rfl, rfl, fun _ => rfl, fun _ => id⟩ keyed
          rfl rfl
  | withSession vaultPath => exact kept.withSession lapsed stepped
  | finishOperation index => exact kept.finishOperation stepped
  | opened session =>
      dsimp only [managerMachine] at stepped
      split at stepped
      · rename_i shut
        cases stepped
        exact kept.opens keyed shut.2
      · cases stepped
  | missing session =>
      dsimp only [managerMachine] at stepped
      split at stepped
      · cases stepped
        have same := mutations_markDeleted manager session
        exact kept.stays (fades_markDeleted manager session) keyed
          (congrArg MutationState.running same) (congrArg MutationState.queue same)
      · cases stepped
  | persisted session failed =>
      dsimp only [managerMachine] at stepped
      split at stepped
      · cases stepped
        exact kept.stays (fades_persisted manager session failed) keyed rfl rfl
      · cases stepped
  | idleTimer vaultPath =>
      dsimp only [managerMachine] at stepped
      split at stepped
      · cases stepped
        refine kept.call (.closeSession vaultPath) _ fun path listed => ?_
        by_cases same : path = vaultPath
        · subst same
          exact .inr rfl
        · exact .inl (List.mem_filter.mpr ⟨listed, decide_eq_true same⟩)
      · cases stepped
  | call mutation =>
      dsimp only [managerMachine] at stepped
      split at stepped
      · cases stepped
      · cases stepped
        exact kept.call mutation manager.idleCloseTimers fun _ => .inl
  | begin_ =>
      dsimp only [managerMachine] at stepped
      split at stepped
      · rename_i call queue idle queued
        obtain rfl := Option.some.inj stepped
        exact kept.begins idle queued lapsed
      · cases stepped
  | work label =>
      dsimp only [managerMachine] at stepped
      split at stepped
      · cases stepped
      · rename_i work running
        obtain ⟨⟨result, nextWork⟩, moved, rfl⟩ := Option.map_eq_some_iff.mp stepped
        refine kept.works running ?_ lapsed (works_of_workStep moved)
        simp only [Guards] at scattered
        rw [running] at scattered
        exact Bool.eq_false_iff.mpr scattered
  | settle =>
      dsimp only [managerMachine] at stepped
      split at stepped
      · rename_i work call queue running queued
        split at stepped
        · obtain rfl := Option.some.inj stepped
          refine kept.fades ⟨⟨.refl _, rfl⟩, rfl, rfl, rfl, rfl, rfl, fun _ => rfl, fun _ => id⟩
            keyed (fun busy => absurd rfl busy) ?_ ?_
          · intro vaultPath session closing
            cases closing
          rintro vaultPath session _ _ ⟨other, listed, closes⟩
          right
          unfold Manager.waiting at *
          rw [running, queued] at listed
          exact ⟨other, listed, closes⟩
        · cases stepped
      · cases stepped
  | detached index label =>
      dsimp only [managerMachine] at stepped
      split at stepped
      · cases stepped
      · rename_i work found
        obtain ⟨⟨result, nextWork⟩, moved, rfl⟩ := Option.map_eq_some_iff.mp stepped
        obtain ⟨rfl, _⟩ := dead_works (kept.keyed.detached work
          (List.mem_of_getElem? found)) (works_of_workStep moved)
        exact kept.stays ⟨⟨.refl _, rfl⟩, rfl, rfl, rfl, rfl, rfl, fun _ => rfl, fun _ => id⟩ keyed
          rfl rfl

/-- An idle close takes only unused and saved sessions out of the map. -/
theorem removes_closeSession {manager : Manager} (keyed : manager.Keyed) {vaultPath : JsString}
    {path : JsString} {session : Nat} (held : manager.sessions.Holds path session)
    (gone : ¬ (manager.closeSessionUnlocked vaultPath).1.sessions.Holds path session) :
    manager.isSessionInUse session = false ∧ (manager.store session).persistFailed = false := by
  unfold closeSessionUnlocked at gone
  dsimp only at gone
  split at gone
  · exact absurd held gone
  · rename_i other found
    split at gone
    · exact absurd held gone
    · rename_i unused
      split at gone
      · exact absurd held gone
      · rename_i sound
        have here : manager.sessions.Holds vaultPath other := Table.holds_of_get found
        by_cases same : path = vaultPath
        · subst same
          rw [keyed.unique.value_eq held here]
          exact ⟨Bool.eq_false_iff.mpr unused, Bool.eq_false_iff.mpr sound⟩
        · exact absurd (Table.holds_delete.mpr ⟨same, held⟩) gone

/-- The invariant makes the leases exact. -/
theorem Kept.leased {manager : Manager} (kept : manager.Kept) : manager.Leased layout where
  clients := kept.clients
  operations := kept.operations
  removes := by
    intro call vaultPath next first mutation stepped path session held gone
    dsimp only [managerMachine] at stepped
    split at stepped
    · rename_i head queue idle queued
      rw [queued] at first
      obtain rfl := Option.some.inj first
      obtain rfl := Option.some.inj stepped
      rw [mutation] at gone
      exact removes_closeSession kept.keyed held gone
    · cases stepped
  closes := by
    intro vaultPath session label next running stepped
    refine ⟨(kept.closing vaultPath session running).1, ?_⟩
    dsimp only [managerMachine] at stepped
    rw [running] at stepped
    obtain ⟨⟨result, nextWork⟩, moved, rfl⟩ := Option.map_eq_some_iff.mp stepped
    cases failed : (manager.store session).persistFailed with
    | false => exact .inl rfl
    | true =>
        right
        cases label with
        | ends succeeds =>
            dsimp only [workStep] at moved
            rw [failed] at moved
            cases succeeds with
            | true => cases moved
            | false =>
                cases moved
                exact Table.holds_set.mpr (.inl ⟨rfl, rfl⟩)
        | _ => cases moved
  timers vaultPath session held opened unused _ :=
    (kept.attended vaultPath session held).2 opened unused

end Manager

/-- **Sessions in use are not closed.** In every run of a new manager in which no session of
a folder move fails while others go on, no idle close leaves an unsaved session, and no
`withSession` drops an idle timer: the counts are the numbers of unreleased leases and of
unfinished operations, an idle close spares what is in use or not saved, and every open
session that nobody uses has an idle close to come. -/
theorem leases_counted {layout : Layout} {target : Manager} {labels : List ManagerLabel}
    (run : (managerMachine layout).Run (fun manager label =>
      ¬ manager.Guards Manager.scatters label ∧ manager.lapses label = false)
      Manager.empty labels target) : target.Leased layout := by
  have start : Manager.empty.Kept :=
    ⟨⟨Manager.keyed_empty, fun _ => rfl, fun _ => rfl, fun _ _ => rfl, absurd rfl, nofun⟩, nofun⟩
  have keep : ∀ (manager : Manager) label next,
      (¬ manager.Guards Manager.scatters label ∧ manager.lapses label = false) →
        (managerMachine layout).step manager label = some next → manager.Kept → next.Kept :=
    fun _ _ _ allowed stepped kept => kept.step allowed.1 allowed.2 stepped
  have final := run.invariant keep start
  exact final.leased

/-- A note is opened, moved, and released; its idle timer is armed under its new path. -/
theorem leases_counted_moved : ∃ target : Manager,
    target.Leased ⟨id, id⟩ ∧ target.sessions.entries = [([98], 0)] ∧
      target.idleCloseTimers = [[98]] := by
  obtain ⟨target, run, view⟩ : ∃ target,
      (managerMachine ⟨id, id⟩).Run (fun manager label =>
        ¬ manager.Guards Manager.scatters label ∧ manager.lapses label = false) Manager.empty
        [.attachClientSession [97], .opened 0, .call (.moveSession [97] [98]), .begin_,
          .work (.stat true), .work (.branch 0 true), .work (.branch 0 true), .work .proceed,
          .work (.ends true), .release 0, .release 0, .work (.branch 0 true), .settle] target ∧
        (target.sessions.entries, target.idleCloseTimers) = ([([98], 0)], [[98]]) :=
    Machine.evaluate_view (by decide +kernel)
  obtain ⟨entries, timers⟩ := Prod.mk.inj view
  exact ⟨target, leases_counted run, entries, timers⟩

/-- The idle timer of a note fires while its content cannot be saved. The session stays, a
later save succeeds, and no idle close is to come. -/
theorem unattended_session : ∃ target : Manager,
    (managerMachine ⟨id, id⟩).Run (fun _ _ => True) Manager.empty
        [.attachClientSession [97], .opened 0, .release 0, .persisted 0 true, .idleTimer [97],
          .begin_, .settle, .persisted 0 false] target ∧
      target.sessions.entries = [([97], 0)] ∧
      target.store 0 = ⟨[97], [97], [97], true, false, true, false⟩ ∧
      ¬ target.Leased ⟨id, id⟩ := by
  obtain ⟨target, run, view⟩ : ∃ target,
      (managerMachine ⟨id, id⟩).Run (fun _ _ => True) Manager.empty
        [.attachClientSession [97], .opened 0, .release 0, .persisted 0 true, .idleTimer [97],
          .begin_, .settle, .persisted 0 false] target ∧
        (target.sessions.entries, target.store 0, target.isSessionInUse 0,
            target.idleCloseTimers.isEmpty && target.waiting.isEmpty) =
          ([([97], 0)], ⟨[97], [97], [97], true, false, true, false⟩, false, true) :=
    Machine.evaluate_view (by decide +kernel)
  simp only [Prod.mk.injEq] at view
  obtain ⟨entries, session, unused, none⟩ := view
  obtain ⟨timers, waiting⟩ := Bool.and_eq_true_iff.mp none
  refine ⟨target, run, entries, session, fun leased => ?_⟩
  have held : target.sessions.Holds [97] 0 := by
    unfold Table.Holds
    rw [entries]
    exact List.mem_cons_self
  rcases leased.timers [97] 0 held (by rw [session]; rfl) unused (by rw [session]) with
    armed | ⟨call, queued, _⟩
  · rw [List.isEmpty_iff.mp timers] at armed
    cases armed
  · rw [List.isEmpty_iff.mp waiting] at queued
    cases queued

end Kb1Daemon
