import Kb1Daemon.Manager.Registry
import Mathlib.Data.List.Nodup

/-! # Structure mutations exclude each other

The manager runs one structure mutation after another, and a reservation is held from
the call of a mutation until its promise is settled. A folder move settles with the first
of its branches that fails, and the next mutation begins while the others still run
(`abandoned_branch`). In every run without such a failure the work of one mutation is
over before the next one begins (`mutations_exclusive`).
-/

namespace Kb1Daemon

/-- The structure mutations of a manager and their reservations. -/
structure MutationState where
  pathReservations : List (Nat × PathReservation)
  ticket : Nat
  queue : List MutationCall
  running : Option Work
  detached : List Work

namespace Manager

/-- The structure mutations of the manager. -/
def mutations (manager : Manager) : MutationState where
  pathReservations := manager.pathReservations
  ticket := manager.ticket
  queue := manager.queue
  running := manager.running
  detached := manager.detached

/-- The branch fails in its preparation. -/
def failsPreparing (manager : Manager) (branch : Branch) (succeeds : Bool) : Bool :=
  match branch.stage with
  | .opening => !succeeds || (manager.store branch.session).deleted
  | .flushing => !succeeds
  | _ => false

/-- A branch of a move fails while another branch, or the move on disk, is pending. -/
def abandons (manager : Manager) : Work → WorkLabel → Bool
  | .preparing branches, .branch index succeeds =>
      match branches[index]? with
      | none => false
      | some branch =>
          manager.failsPreparing branch succeeds &&
            (branches.eraseIdx index).any fun other => other.stage.isPending
  | .preparing branches, .proceed =>
      branches.any fun branch => (manager.store branch.session).deleted
  | .moving branches true, .ends true =>
      (branches.any fun branch => (manager.store branch.session).deleted) &&
        branches.any fun branch => !(manager.store branch.session).deleted
  | .moving branches _, .branch index false =>
      (branches.eraseIdx index).any fun other => other.stage.isPending
  | _, _ => false

/-- The step makes a folder move settle before its work is over. -/
def Abandons (manager : Manager) : ManagerLabel → Prop
  | .work label =>
      match manager.running with
      | none => False
      | some work => manager.abandons work label = true
  | _ => False

instance decidableAbandons (manager : Manager) (label : ManagerLabel) :
    Decidable (manager.Abandons label) :=
  match label with
  | .work label =>
      decidable_of_iff (manager.running.any (fun work => manager.abandons work label) = true) (by
        unfold Abandons
        cases manager.running <;> simp)
  | .attachClientSession _ | .release _ | .awaitAvailable _ | .withSession _ | .finishOperation _
  | .opened _ | .missing _ | .persisted _ _ | .idleTimer _ | .call _ | .begin_ | .settle
  | .detached _ _ => inferInstanceAs (Decidable False)

/-- **Exclusion.** At most one structure mutation has work in progress; a session is
obtained only for a path without a reservation; and the reservations held are those of
the mutations that are not settled. -/
structure Exclusive (layout : Layout) (manager : Manager) : Prop where
  alone : (manager.running.toList ++ manager.detached).length ≤ 1
  clients : ∀ vaultPath next, manager.attachClientSession layout vaultPath = some next →
    manager.hasPathReservation vaultPath = false
  operations : ∀ vaultPath next, manager.withSession layout vaultPath = some next →
    next.operations ≠ manager.operations → manager.hasPathReservation vaultPath = false
  reserved : manager.pathReservations =
    manager.queue.map fun call => (call.ticket, call.mutation.reservation)

end Manager

namespace Work

/-- A prepared move has settled once a branch has failed. -/
theorem isSettled_preparing {branches : List Branch} :
    (Work.preparing branches).isSettled = true ↔ ∃ branch ∈ branches, branch.stage = .failed := by
  simp [isSettled]

theorem isFinished_preparing {branches : List Branch} :
    (Work.preparing branches).isFinished = true ↔
      ∀ branch ∈ branches, branch.stage.isPending = false := by
  simp [isFinished]

theorem isSettled_moving {branches : List Branch} {diskPending : Bool} :
    (Work.moving branches diskPending).isSettled = true ↔
      (∃ branch ∈ branches, branch.stage = .failed) ∨ ∀ branch ∈ branches, branch.stage = .done := by
  simp [isSettled]

theorem isFinished_moving {branches : List Branch} {diskPending : Bool} :
    (Work.moving branches diskPending).isFinished = true ↔
      diskPending = false ∧ ∀ branch ∈ branches, branch.stage.isPending = false := by
  simp [isFinished]

/-- A move has branches, they all await the move on disk while it is pending, and the
work is over when the promise is settled. -/
def Whole : Work → Prop
  | .preparing branches => branches ≠ [] ∧
      (Work.isSettled (.preparing branches) = true → Work.isFinished (.preparing branches) = true)
  | .moving branches diskPending => branches ≠ [] ∧
      (diskPending = true → ∀ branch ∈ branches, branch.stage = .moving) ∧
      (Work.isSettled (.moving branches diskPending) = true →
        Work.isFinished (.moving branches diskPending) = true)
  | _ => True

/-- Whole work that has settled is finished. -/
theorem Whole.finished {work : Work} (whole : work.Whole) (settled : work.isSettled = true) :
    work.isFinished = true := by
  cases work with
  | preparing branches => exact whole.2 settled
  | moving branches diskPending => exact whole.2.2 settled
  | settled => rfl
  | _ => cases settled

end Work

namespace Manager

variable {layout : Layout}

theorem mutations_scheduleIdleClose (manager : Manager) (vaultPath : JsString) :
    (manager.scheduleIdleClose vaultPath).mutations = manager.mutations := by
  unfold scheduleIdleClose
  split
  · rfl
  · split
    · rfl
    · dsimp only
      split <;> rfl

theorem mutations_getSession (manager : Manager) (vaultPath : JsString) :
    (manager.getSession layout vaultPath).1.mutations = manager.mutations := by
  unfold getSession
  dsimp only
  split <;> rfl

theorem mutations_markDeleted (manager : Manager) (session : Nat) :
    (manager.markDeleted session).mutations = manager.mutations := by
  unfold markDeleted
  split <;> rfl

theorem mutations_rekeySession (manager : Manager) (fromPath toPath : JsString) (session : Nat) :
    (manager.rekeySession fromPath toPath session).mutations = manager.mutations := by
  unfold rekeySession
  dsimp only
  split
  · rfl
  · rw [mutations_scheduleIdleClose]
    rfl

/-- Going on with a deletion takes paths out of the map, and keeps what each of them keeps. -/
theorem removeNext_induction {Keeps : Manager → Manager → Prop}
    (refl : ∀ manager, Keeps manager manager)
    (delete : ∀ manager path next,
      Keeps { manager with sessions := manager.sessions.delete path } next → Keeps manager next)
    (manager : Manager) (diskDeleted subtree : Bool) (paths : List JsString) :
    Keeps manager (manager.removeNext diskDeleted subtree paths).1 := by
  induction paths generalizing manager with
  | nil =>
      unfold removeNext
      split <;> exact refl manager
  | cons path paths ih =>
      unfold removeNext
      split
      · split
        · exact ih manager
        · exact refl manager
      · split
        · exact delete manager path _ (ih _)
        · exact refl manager

/-- A deletion is over, or it goes on with a session or with a path that has none. -/
theorem work_removeNext {Goes : Work → Prop} (settled : Goes .settled)
    (bare : ∀ paths, Goes (.removingBare paths))
    (opening : ∀ session path paths diskDeleted subtree,
      Goes (.removing ⟨session, path, .opening⟩ paths diskDeleted subtree))
    (manager : Manager) (diskDeleted subtree : Bool) (paths : List JsString) :
    Goes (manager.removeNext diskDeleted subtree paths).2 := by
  induction paths generalizing manager with
  | nil =>
      unfold removeNext
      split
      · exact bare []
      · exact settled
  | cons path paths ih =>
      unfold removeNext
      split
      · split
        · exact ih manager
        · exact bare paths
      · split
        · exact ih _
        · exact opening ..

theorem mutations_removeNext (manager : Manager) (diskDeleted subtree : Bool)
    (paths : List JsString) :
    (manager.removeNext diskDeleted subtree paths).1.mutations = manager.mutations :=
  @removeNext_induction (fun before next => next.mutations = before.mutations) (fun _ => rfl)
    (fun _ _ _ same => same) manager diskDeleted subtree paths

theorem mutations_transit (manager : Manager) (moved : Bool) (branches : List Branch) :
    (manager.transit layout moved branches).1.mutations = manager.mutations := by
  induction branches generalizing manager with
  | nil => rfl
  | cons branch branches ih =>
      unfold transit
      dsimp only
      rw [ih]
      unfold transitBranch
      split
      · split
        · rfl
        · split <;> rfl
      · rfl

theorem mutations_begin (manager : Manager) (mutation : Mutation) :
    (manager.begin_ mutation).1.mutations = manager.mutations := by
  cases mutation with
  | deleteSession path => exact mutations_removeNext manager _ _ _
  | deleteSessionSubtree folderPath => exact mutations_removeNext manager _ _ _
  | closeSession vaultPath =>
      unfold begin_ closeSessionUnlocked
      dsimp only
      split
      · rfl
      · split
        · rfl
        · split <;> rfl
  | _ => rfl

/-- No step of a mutation's work touches the queue or the reservations. -/
theorem mutations_works {manager next : Manager} {work nextWork : Work} {label : WorkLabel}
    (works : manager.Works layout work label next nextWork) :
    next.mutations = manager.mutations := by
  cases works with
  | transit => exact mutations_transit manager _ _
  | rekeyed found writing =>
      rw [mutations_rekeySession]
      rfl
  | removed =>
      rw [mutations_removeNext]
      exact mutations_markDeleted manager _
  | removedBare => exact mutations_removeNext manager _ _ _
  | _ => rfl

theorem mem_setStage {branches : List Branch} {index : Nat} {branch other : Branch}
    {stage : Stage} (member : other ∈ setStage branches index branch stage) :
    other ∈ branches.eraseIdx index ∨ other = { branch with stage := stage } := by
  obtain ⟨place, at_⟩ := List.mem_iff_getElem?.mp member
  unfold setStage at at_
  rw [List.getElem?_set] at at_
  split at at_
  · split at at_
    · exact .inr (Option.some.inj at_).symm
    · cases at_
  · rename_i elsewhere
    left
    rw [List.mem_eraseIdx_iff_getElem?]
    exact ⟨place, Ne.symm elsewhere, at_⟩

/-- A change of stage removes no branch. -/
theorem setStage_ne_nil {branches : List Branch} (nonempty : branches ≠ []) (index : Nat)
    (branch : Branch) (stage : Stage) : setStage branches index branch stage ≠ [] := by
  intro empty
  apply nonempty
  have length := congrArg List.length empty
  unfold setStage at length
  rw [List.length_set] at length
  exact List.eq_nil_of_length_eq_zero length

/-- A branch that goes on without failing does not settle a move that was not settled,
and one that fails alone ends it. -/
theorem whole_preparing {branches : List Branch} {index : Nat} {branch : Branch} {stage : Stage}
    (whole : (Work.preparing branches).Whole) (found : branches[index]? = some branch)
    (pending : branch.stage.isPending = true)
    (ends : stage = .failed → ∀ other ∈ branches.eraseIdx index, other.stage.isPending = false) :
    (Work.preparing (setStage branches index branch stage)).Whole := by
  obtain ⟨nonempty, finished⟩ := whole
  refine ⟨setStage_ne_nil nonempty index branch stage, ?_⟩
  rw [Work.isSettled_preparing, Work.isFinished_preparing] at finished ⊢
  rintro ⟨other, member, failed⟩
  rcases mem_setStage member with old | rfl
  · have passed := finished ⟨other, List.mem_of_mem_eraseIdx old, failed⟩ branch
      (List.mem_of_getElem? found)
    exact absurd (pending.symm.trans passed) (by decide)
  · intro last listed
    obtain rfl : stage = .failed := failed
    rcases mem_setStage listed with old | rfl
    · exact ends rfl last old
    · rfl

theorem abandons_preparing {manager : Manager} {branches : List Branch} {index : Nat}
    {branch : Branch} {succeeds : Bool} (found : branches[index]? = some branch)
    (fails : manager.failsPreparing branch succeeds = true)
    (allowed : manager.abandons (.preparing branches) (.branch index succeeds) = false) :
    ∀ other ∈ branches.eraseIdx index, other.stage.isPending = false := by
  simp only [abandons] at allowed
  rw [found] at allowed
  dsimp only at allowed
  rw [fails, Bool.true_and, List.any_eq_false] at allowed
  exact fun other member => Bool.eq_false_iff.mpr (allowed other member)

/-- Where the end of the move on disk leads a branch. -/
def arrival (manager : Manager) (moved : Bool) (branch : Branch) : Stage :=
  if (manager.store branch.session).deleted then .failed
  else if moved then .writing
  else .failed

/-- The end of a move on disk deletes no session. -/
theorem deleted_transitBranch (manager : Manager) (moved : Bool) (branch : Branch)
    (session : Nat) :
    ((manager.transitBranch layout moved branch).1.store session).deleted =
      (manager.store session).deleted := by
  unfold transitBranch
  split
  · split
    · rfl
    · split
      · exact @store_update_field manager branch.session session
          (fun managed => managed.rebind layout branch.toPath) _ Managed.deleted fun _ => rfl
      · exact @store_update_field manager branch.session session Managed.startWatching _
          Managed.deleted fun _ => rfl
  · rfl

theorem arrival_congr {manager other : Manager} {moved : Bool} {branch : Branch}
    (same : (other.store branch.session).deleted = (manager.store branch.session).deleted) :
    other.arrival moved branch = manager.arrival moved branch := by
  unfold arrival
  rw [same]

/-- Every branch that awaits the move on disk goes on when it ends. -/
theorem transit_branches (manager : Manager) (moved : Bool) {branches : List Branch}
    (waiting : ∀ branch ∈ branches, branch.stage = .moving) :
    (manager.transit layout moved branches).2 =
      branches.map fun branch => { branch with stage := manager.arrival moved branch } := by
  induction branches generalizing manager with
  | nil => rfl
  | cons branch branches ih =>
      unfold transit
      dsimp only
      rw [ih _ fun other member => waiting other (List.mem_cons_of_mem _ member)]
      rw [List.map_cons]
      congr 1
      · unfold transitBranch arrival
        rw [waiting branch List.mem_cons_self]
        dsimp only
        split
        · rfl
        · split <;> rfl
      · apply List.map_congr_left
        intro other _
        rw [arrival_congr (deleted_transitBranch manager moved branch other.session)]

/-- What a removal goes on with is whole. -/
theorem whole_removeNext (manager : Manager) (diskDeleted subtree : Bool)
    (paths : List JsString) : (manager.removeNext diskDeleted subtree paths).2.Whole :=
  work_removeNext trivial (fun _ => trivial) (fun _ _ _ _ _ => trivial) manager diskDeleted subtree
    paths

/-- **Work and promise.** Unless a branch fails while others are pending, the work of a
mutation is over when its promise is settled. -/
theorem whole_works {manager next : Manager} {work nextWork : Work} {label : WorkLabel}
    (whole : work.Whole) (allowed : manager.abandons work label = false)
    (works : manager.Works layout work label next nextWork) : nextWork.Whole := by
  cases works with
  | rest quiet passed =>
      rcases passed with rfl | rfl <;> trivial
  | prepareFile => exact ⟨nofun, nofun⟩
  | prepareFolder present =>
      refine ⟨present, ?_⟩
      rw [Work.isSettled_preparing]
      rintro ⟨branch, member, failed⟩
      obtain ⟨entry, _, rfl⟩ := List.mem_map.mp member
      cases failed
  | @openFails branches index branch succeeds found opening shut fails =>
      refine whole_preparing whole found (by rw [opening]; rfl) fun _ => ?_
      refine abandons_preparing found ?_ allowed
      unfold failsPreparing
      rw [opening]
      rcases fails with rfl | deleted
      · rfl
      · dsimp only
        rw [deleted, Bool.or_true]
  | stopWatching found opening =>
      exact whole_preparing whole found (by rw [opening]; rfl) nofun
  | flushed found flushing =>
      exact whole_preparing whole found (by rw [flushing]; rfl) nofun
  | @flushFails branches index branch found flushing =>
      refine whole_preparing whole found (by rw [flushing]; rfl) fun _ => ?_
      refine abandons_preparing found ?_ allowed
      unfold failsPreparing
      rw [flushing]
      rfl
  | @proceed branches prepared =>
      have live : ∀ branch ∈ branches, (manager.store branch.session).deleted = false :=
        fun branch member => Bool.eq_false_iff.mpr (List.any_eq_false.mp allowed branch member)
      have waiting : ∀ branch ∈ branches.map fun branch =>
          { branch with
            stage := if (manager.store branch.session).deleted then .failed else .moving },
          branch.stage = Stage.moving := by
        intro branch member
        obtain ⟨before, listed, rfl⟩ := List.mem_map.mp member
        exact if_neg (by rw [live before listed]; decide)
      refine ⟨fun empty => whole.1 (List.map_eq_nil_iff.mp empty), fun _ => waiting, ?_⟩
      rw [Work.isSettled_moving]
      rintro (⟨branch, member, failed⟩ | done)
      · rw [waiting branch member] at failed
        cases failed
      · obtain ⟨first, member⟩ := List.exists_mem_of_ne_nil _ whole.1
        have stage := done _ (List.mem_map_of_mem member)
        rw [waiting _ (List.mem_map_of_mem member)] at stage
        cases stage
  | @transit branches moved =>
      obtain ⟨nonempty, waiting, _⟩ := whole
      rw [transit_branches manager moved (waiting rfl)]
      refine ⟨fun empty => nonempty (List.map_eq_nil_iff.mp empty), nofun, ?_⟩
      rw [Work.isSettled_moving, Work.isFinished_moving]
      intro settled
      refine ⟨rfl, ?_⟩
      intro branch member
      obtain ⟨before, listed, rfl⟩ := List.mem_map.mp member
      change (manager.arrival moved before).isPending = false
      unfold arrival
      split
      · rfl
      · rename_i live
        split
        · rename_i arrives
          exfalso
          subst arrives
          rcases settled with ⟨other, listedOther, failed⟩ | done
          · obtain ⟨lost, lostListed, rfl⟩ := List.mem_map.mp listedOther
            have gone : (manager.store lost.session).deleted = true := by
              by_contra alive
              have stage : manager.arrival true lost = .writing := by
                rw [arrival, if_neg alive, if_pos rfl]
              rw [stage] at failed
              cases failed
            have mixed : manager.abandons (.moving branches true) (.ends true) = true := by
              change (List.any _ _ && List.any _ _) = true
              rw [Bool.and_eq_true]
              exact ⟨List.any_eq_true.mpr ⟨lost, lostListed, gone⟩,
                List.any_eq_true.mpr ⟨before, listed, by simpa using live⟩⟩
            exact absurd (allowed.symm.trans mixed) (by decide)
          · have stage := done _ member
            dsimp only at stage
            rw [arrival, if_neg live, if_pos rfl] at stage
            cases stage
        · rfl
  | @rekeyed branches diskPending index branch found writing =>
      obtain ⟨nonempty, waiting, finished⟩ := whole
      have listed := List.mem_of_getElem? found
      rw [Work.isSettled_moving, Work.isFinished_moving] at finished
      have landed : diskPending = false := by
        rw [Bool.eq_false_iff]
        intro pending
        have stage := waiting pending branch listed
        rw [writing] at stage
        cases stage
      refine ⟨setStage_ne_nil nonempty index branch _, ?_, ?_⟩
      · intro pending
        exact absurd (landed.symm.trans pending) (by decide)
      · rw [Work.isSettled_moving, Work.isFinished_moving]
        rintro (⟨other, member, failed⟩ | done)
        · rcases mem_setStage member with old | rfl
          · have passed := (finished (.inl ⟨other, List.mem_of_mem_eraseIdx old, failed⟩)).2 branch
              listed
            rw [writing] at passed
            cases passed
          · cases failed
        · exact ⟨landed, fun other member => by rw [done other member]; rfl⟩
  | @writeFails branches diskPending index branch found writing =>
      obtain ⟨nonempty, waiting, _⟩ := whole
      have landed : diskPending = false := by
        rw [Bool.eq_false_iff]
        intro pending
        have stage := waiting pending branch (List.mem_of_getElem? found)
        rw [writing] at stage
        cases stage
      have others : ∀ other ∈ branches.eraseIdx index, other.stage.isPending = false := by
        subst landed
        exact fun other member => Bool.eq_false_iff.mpr (List.any_eq_false.mp allowed other member)
      refine ⟨setStage_ne_nil nonempty index branch _, ?_, fun _ => ?_⟩
      · intro pending
        exact absurd (landed.symm.trans pending) (by decide)
      · rw [Work.isFinished_moving]
        refine ⟨landed, fun other member => ?_⟩
        rcases mem_setStage member with old | rfl
        · exact others other old
        · rfl
  | removed => exact whole_removeNext _ _ _ _
  | removedBare => exact whole_removeNext _ _ _ _
  | _ => trivial

/-- The first step of a mutation is whole. -/
theorem whole_begin (manager : Manager) (mutation : Mutation) :
    (manager.begin_ mutation).2.Whole := by
  cases mutation with
  | deleteSession path => exact whole_removeNext manager _ _ _
  | deleteSessionSubtree folderPath => exact whole_removeNext manager _ _ _
  | closeSession vaultPath =>
      unfold begin_ closeSessionUnlocked
      dsimp only
      split
      · trivial
      · split
        · trivial
        · split <;> trivial
  | _ => trivial

/-- The queue runs one mutation, the first one, and holds the reservations of all. -/
structure Orderly (manager : Manager) : Prop where
  whole : ∀ work, manager.running = some work → work.Whole
  detached : manager.detached = []
  reserved : manager.pathReservations =
    manager.queue.map fun call => (call.ticket, call.mutation.reservation)
  tickets : ∀ call ∈ manager.queue, call.ticket < manager.ticket
  distinct : (manager.queue.map MutationCall.ticket).Nodup

/-- The order of the mutations depends on the queue only. -/
theorem Orderly.congr {manager next : Manager} (orderly : manager.Orderly)
    (same : next.mutations = manager.mutations) : next.Orderly := by
  have running := congrArg MutationState.running same
  have detached := congrArg MutationState.detached same
  have reservations := congrArg MutationState.pathReservations same
  have queue := congrArg MutationState.queue same
  have ticket := congrArg MutationState.ticket same
  simp only [mutations] at running detached reservations queue ticket
  refine ⟨?_, detached.trans orderly.detached, ?_, ?_, ?_⟩
  · rw [running]
    exact orderly.whole
  · rw [reservations, queue]
    exact orderly.reserved
  · rw [queue, ticket]
    exact orderly.tickets
  · rw [queue]
    exact orderly.distinct

/-- A call is queued behind the others. -/
theorem Orderly.call {manager : Manager} (orderly : manager.Orderly) (mutation : Mutation) :
    (manager.call mutation).Orderly := by
  refine ⟨orderly.whole, orderly.detached, ?_, ?_, ?_⟩
  · change manager.pathReservations ++ _ = List.map _ (manager.queue ++ _)
    rw [List.map_append, orderly.reserved]
    rfl
  · intro call member
    change call.ticket < manager.ticket + 1
    rcases List.mem_append.mp member with old | new
    · exact Nat.lt_succ_of_lt (orderly.tickets call old)
    · rw [List.mem_singleton.mp new]
      exact Nat.lt_succ_self _
  · change (List.map _ (manager.queue ++ _)).Nodup
    rw [List.map_append, List.nodup_append]
    refine ⟨orderly.distinct, List.nodup_singleton _, ?_⟩
    rintro ticket member _ added rfl
    obtain ⟨call, listed, rfl⟩ := List.mem_map.mp member
    have below := orderly.tickets call listed
    rw [List.mem_singleton.mp added] at below
    exact absurd below (Nat.lt_irrefl _)

theorem mutations_attachClientSession {manager next : Manager} {vaultPath : JsString}
    (attached : manager.attachClientSession layout vaultPath = some next) :
    next.mutations = manager.mutations := by
  unfold attachClientSession at attached
  split at attached
  · cases attached
  · obtain rfl := Option.some.inj attached
    exact mutations_getSession manager vaultPath

theorem mutations_release {manager next : Manager} {index : Nat}
    (released : manager.release index = some next) : next.mutations = manager.mutations := by
  unfold release at released
  split at released
  · cases released
  · split at released
    · cases released
      rfl
    · dsimp only at released
      split at released
      · cases released
        rfl
      · split at released
        · cases released
          rfl
        · obtain rfl := Option.some.inj released
          rw [mutations_scheduleIdleClose]
          rfl

theorem mutations_withSession {manager next : Manager} {vaultPath : JsString}
    (resumed : manager.withSession layout vaultPath = some next) :
    next.mutations = manager.mutations := by
  unfold withSession at resumed
  split at resumed
  · dsimp only at resumed
    split at resumed
    · cases resumed
      rfl
    · obtain rfl := Option.some.inj resumed
      exact mutations_getSession _ vaultPath
  · cases resumed

theorem mutations_finishOperation {manager next : Manager} {index : Nat}
    (finished : manager.finishOperation index = some next) :
    next.mutations = manager.mutations := by
  unfold finishOperation at finished
  split at finished
  · cases finished
  · split at finished
    · cases finished
    · dsimp only at finished
      split at finished
      · cases finished
        rfl
      · obtain rfl := Option.some.inj finished
        rw [mutations_scheduleIdleClose]
        rfl

theorem Orderly.step {manager next : Manager} {label : ManagerLabel} (orderly : manager.Orderly)
    (allowed : ¬ manager.Abandons label)
    (stepped : (managerMachine layout).step manager label = some next) : next.Orderly := by
  cases label with
  | attachClientSession vaultPath => exact orderly.congr (mutations_attachClientSession stepped)
  | release index => exact orderly.congr (mutations_release stepped)
  | awaitAvailable vaultPath =>
      dsimp only [managerMachine] at stepped
      split at stepped
      · cases stepped
      · cases stepped
        exact orderly.congr rfl
  | withSession vaultPath => exact orderly.congr (mutations_withSession stepped)
  | finishOperation index => exact orderly.congr (mutations_finishOperation stepped)
  | opened session =>
      dsimp only [managerMachine] at stepped
      split at stepped
      · cases stepped
        exact orderly.congr rfl
      · cases stepped
  | missing session =>
      dsimp only [managerMachine] at stepped
      split at stepped
      · cases stepped
        exact orderly.congr (mutations_markDeleted manager session)
      · cases stepped
  | persisted session failed =>
      dsimp only [managerMachine] at stepped
      split at stepped
      · cases stepped
        exact orderly.congr rfl
      · cases stepped
  | idleTimer vaultPath =>
      dsimp only [managerMachine] at stepped
      split at stepped
      · cases stepped
        have cancelled : (manager.cancelIdleClose vaultPath).Orderly := orderly.congr rfl
        exact cancelled.call _
      · cases stepped
  | call mutation =>
      dsimp only [managerMachine] at stepped
      split at stepped
      · cases stepped
      · cases stepped
        exact orderly.call mutation
  | begin_ =>
      dsimp only [managerMachine] at stepped
      split at stepped
      · rename_i call queue idle waiting
        obtain rfl := Option.some.inj stepped
        obtain ⟨whole, detached, reserved, tickets, distinct⟩ :=
          orderly.congr (mutations_begin manager call.mutation)
        refine ⟨?_, detached, reserved, tickets, distinct⟩
        intro work begun
        obtain rfl := Option.some.inj begun
        exact whole_begin manager call.mutation
      · cases stepped
  | work label =>
      dsimp only [managerMachine] at stepped
      split at stepped
      · cases stepped
      · rename_i work running
        obtain ⟨⟨result, nextWork⟩, moved, rfl⟩ := Option.map_eq_some_iff.mp stepped
        have works := works_of_workStep moved
        obtain ⟨_, detached, reserved, tickets, distinct⟩ :=
          orderly.congr (mutations_works works)
        refine ⟨?_, detached, reserved, tickets, distinct⟩
        intro other same
        obtain rfl := Option.some.inj same
        refine whole_works (orderly.whole work running) ?_ works
        simp only [Abandons] at allowed
        rw [running] at allowed
        exact Bool.eq_false_iff.mpr allowed
  | settle =>
      dsimp only [managerMachine] at stepped
      split at stepped
      · rename_i work call queue running waiting
        split at stepped
        · rename_i settled
          obtain rfl := Option.some.inj stepped
          have finished := (orderly.whole work running).finished settled
          have distinct := orderly.distinct
          have reserved := orderly.reserved
          have tickets := orderly.tickets
          rw [waiting] at distinct reserved tickets
          rw [List.map_cons, List.nodup_cons] at distinct
          refine ⟨?_, ?_, ?_, ?_, distinct.2⟩
          · intro other started
            cases started
          · dsimp only
            rw [if_pos finished]
            exact orderly.detached
          · dsimp only
            rw [reserved, List.map_cons, List.filter_cons_of_neg (by simp)]
            apply List.filter_eq_self.mpr
            intro entry member
            obtain ⟨other, listed, rfl⟩ := List.mem_map.mp member
            have different : other.ticket ≠ call.ticket := by
              intro same
              exact distinct.1 (same ▸ List.mem_map_of_mem listed)
            simpa using different
          · exact fun other member => tickets other (List.mem_cons_of_mem _ member)
        · cases stepped
      · cases stepped
  | detached index label =>
      dsimp only [managerMachine] at stepped
      rw [orderly.detached] at stepped
      cases stepped

/-- A client gets a session only for a path without a reservation. -/
theorem unreserved_of_attach {manager next : Manager} {vaultPath : JsString}
    (attached : manager.attachClientSession layout vaultPath = some next) :
    manager.hasPathReservation vaultPath = false := by
  unfold attachClientSession at attached
  split at attached
  · cases attached
  · rename_i free
    exact Bool.eq_false_iff.mpr free

theorem unreserved_of_withSession {manager next : Manager} {vaultPath : JsString}
    (resumed : manager.withSession layout vaultPath = some next)
    (obtained : next.operations ≠ manager.operations) :
    manager.hasPathReservation vaultPath = false := by
  unfold withSession at resumed
  split at resumed
  · dsimp only at resumed
    split at resumed
    · cases resumed
      exact absurd rfl obtained
    · rename_i free
      exact Bool.eq_false_iff.mpr free
  · cases resumed

/-- Mutations in order exclude each other. -/
theorem Orderly.exclusive {manager : Manager} (orderly : manager.Orderly) :
    manager.Exclusive layout where
  alone := by
    rw [orderly.detached, List.append_nil]
    cases manager.running <;> simp
  clients _ _ := unreserved_of_attach
  operations _ _ := unreserved_of_withSession
  reserved := orderly.reserved

end Manager

/-- **Structure mutations exclude each other.** In every run of a new manager in which no
branch of a folder move fails, and no session is deleted under a move, while another
branch or the move on disk is pending: at most one mutation has work in progress, its
rebinding and rekeying included; sessions are obtained only for paths without a
reservation; and exactly the mutations that are not settled hold reservations. -/
theorem mutations_exclusive {layout : Layout} {target : Manager} {labels : List ManagerLabel}
    (run : (managerMachine layout).Run (fun manager label => ¬ manager.Abandons label)
      Manager.empty labels target) : target.Exclusive layout := by
  have start : Manager.empty.Orderly := ⟨nofun, rfl, rfl, nofun, List.nodup_nil⟩
  have keep : ∀ (manager : Manager) label next, ¬ manager.Abandons label →
      (managerMachine layout).step manager label = some next → manager.Orderly → next.Orderly :=
    fun _ _ _ allowed stepped orderly => orderly.step allowed stepped
  have final := run.invariant keep start
  exact final.exclusive

/-- A folder with two open notes is moved and both complete the move. -/
theorem mutations_exclusive_moved : ∃ target : Manager,
    target.Exclusive ⟨id, id⟩ ∧
      target.sessions.entries = [([103, 47, 98], 1), ([103, 47, 97], 0)] := by
  obtain ⟨target, run, entries⟩ : ∃ target,
      (managerMachine ⟨id, id⟩).Run (fun manager label => ¬ manager.Abandons label) Manager.empty
        [.attachClientSession [102, 47, 97], .attachClientSession [102, 47, 98],
          .opened 0, .opened 1, .call (.moveSessionSubtree [102] [103]), .begin_,
          .work (.stat true), .work (.branch 0 true), .work (.branch 1 true),
          .work (.branch 0 true), .work (.branch 1 true), .work .proceed, .work (.ends true),
          .work (.branch 1 true), .work (.branch 0 true), .settle] target ∧
        target.sessions.entries = [([103, 47, 98], 1), ([103, 47, 97], 0)] :=
    Machine.evaluate_view (by decide +kernel)
  exact ⟨target, mutations_exclusive run, entries⟩

/-- The first note of a folder cannot be saved before the move, which settles, and the
second note is still saving when the next mutation runs. -/
theorem abandoned_branch : ∃ target : Manager,
    (managerMachine ⟨id, id⟩).Run (fun _ _ => True) Manager.empty
        [.attachClientSession [102, 47, 97], .attachClientSession [102, 47, 98],
          .opened 0, .opened 1, .call (.moveSessionSubtree [102] [103]), .begin_,
          .work (.stat true), .work (.branch 0 true), .work (.branch 1 true),
          .work (.branch 0 false), .settle, .call (.withStablePath [102, 47, 98]),
          .begin_] target ∧
      target.running = some (.stable (some 1)) ∧
      target.detached = [.preparing [⟨0, [102, 47, 97], [103, 47, 97], .failed⟩,
        ⟨1, [102, 47, 98], [103, 47, 98], .flushing⟩]] ∧
      ¬ target.Exclusive ⟨id, id⟩ := by
  obtain ⟨target, run, view⟩ : ∃ target,
      (managerMachine ⟨id, id⟩).Run (fun _ _ => True) Manager.empty
        [.attachClientSession [102, 47, 97], .attachClientSession [102, 47, 98],
          .opened 0, .opened 1, .call (.moveSessionSubtree [102] [103]), .begin_,
          .work (.stat true), .work (.branch 0 true), .work (.branch 1 true),
          .work (.branch 0 false), .settle, .call (.withStablePath [102, 47, 98]),
          .begin_] target ∧
        (target.running, target.detached) =
          (some (.stable (some 1)), [.preparing [⟨0, [102, 47, 97], [103, 47, 97], .failed⟩,
            ⟨1, [102, 47, 98], [103, 47, 98], .flushing⟩]]) :=
    Machine.evaluate_view (by decide +kernel)
  obtain ⟨running, detached⟩ := Prod.mk.inj view
  refine ⟨target, run, running, detached, fun exclusive => ?_⟩
  have alone := exclusive.alone
  rw [running, detached] at alone
  exact absurd alone (by decide)

end Kb1Daemon
