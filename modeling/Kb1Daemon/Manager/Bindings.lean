import Kb1Daemon.Manager.Keys

/-! # Sessions lie under the paths they are bound to

Between structure mutations every session of the map is bound to the path it is stored
under, is stored under no other path, and watches its file if it is open. A move breaks
this when it fails half way: a session whose files cannot be rewritten after the move on
disk keeps its old key and its new paths, and stops watching (`stranded_session`); when
one session of a folder move fails, those that are prepared stay without a watcher. Every
run without such a failure keeps the registry consistent (`registry_consistent`).
-/

namespace Kb1Daemon

open JsString

namespace Manager

/-- A session of a move fails while another one has begun to move, or a session that the
map still holds fails after it was bound to its new path. -/
def strands (manager : Manager) : Work → WorkLabel → Bool
  | .preparing branches, .branch index succeeds =>
      match branches[index]? with
      | none => false
      | some branch =>
          manager.failsPreparing branch succeeds &&
            (branches.eraseIdx index).any fun other => other.stage ≠ .failed
  | .preparing branches, .proceed => manager.mixed branches
  | .moving branches true, .ends true => manager.mixed branches
  | .moving branches _, .branch index false =>
      ((branches.eraseIdx index).any fun other => other.stage.isPending) ||
        branches[index]?.any fun branch =>
          manager.sessions.get branch.fromPath = some branch.session
  | _, _ => false

/-- **Consistency.** The entries of the map agree with the sessions they name. -/
structure Consistent (layout : Layout) (manager : Manager) : Prop where
  bound : ∀ vaultPath session, manager.sessions.Holds vaultPath session →
    (manager.store session).filePath = layout.toFilePath vaultPath ∧
      (manager.store session).eventPath = vaultPath ∧
      (manager.store session).stateFilePath = layout.toStateFilePath vaultPath
  once : ∀ first second session, manager.sessions.Holds first session →
    manager.sessions.Holds second session → first = second
  watched : ∀ vaultPath session, manager.sessions.Holds vaultPath session →
    (manager.store session).isOpened = true → (manager.store session).watching = true

end Manager

/-- The session has stopped watching and goes on. -/
def Stage.isSuspended : Stage → Bool
  | .flushing | .prepared | .moving | .writing => true
  | .opening | .done | .failed => false

namespace Work

/-- The session is being rewritten after it was bound to its new path. -/
def Rewrites (session : Nat) : Work → Prop
  | .moving branches _ => ∃ branch ∈ branches, branch.session = session ∧ branch.stage = .writing
  | _ => False

/-- The mutation has made the session stop watching. -/
def Suspends (session : Nat) : Work → Prop
  | .preparing branches | .moving branches _ =>
      ∃ branch ∈ branches, branch.session = session ∧ branch.stage.isSuspended = true
  | .removing removal _ _ _ => removal.session = session ∧ removal.stage ≠ .opening
  | _ => False

end Work

namespace Manager

variable {layout : Layout}

/-- What a mutation knows of the paths of its sessions. -/
def Binds (manager : Manager) : Work → Prop
  | .preparing branches => (∃ branch ∈ branches, branch.stage = .failed) →
      ∀ branch ∈ branches, branch.stage = .failed
  | .moving branches _ => ∀ branch ∈ branches, branch.stage = .writing →
      (manager.store branch.session).eventPath = branch.toPath
  | .closing vaultPath session => (manager.store session).eventPath = vaultPath ∧
      ((manager.store session).isOpened = true → (manager.store session).watching = true)
  | _ => True

/-- The registry, also while a mutation runs. -/
structure Registered (layout : Layout) (manager : Manager) : Prop where
  keyed : manager.Keyed
  located : ∀ session < manager.fresh,
    (manager.store session).filePath = layout.toFilePath (manager.store session).eventPath ∧
      (manager.store session).stateFilePath =
        layout.toStateFilePath (manager.store session).eventPath
  named : ∀ vaultPath session, manager.sessions.Holds vaultPath session →
    (manager.store session).eventPath = vaultPath ∨
      ∃ work ∈ manager.running, work.Rewrites session
  watched : ∀ vaultPath session, manager.sessions.Holds vaultPath session →
    (manager.store session).isOpened = true → (manager.store session).watching = true ∨
      ∃ work ∈ manager.running, work.Suspends session
  binds : ∀ work ∈ manager.running, manager.Binds work

/-- Entries of the map only disappear, and sessions keep their paths. -/
structure Recedes (manager next : Manager) : Prop extends Shrinks manager next where
  filePath : ∀ session, (next.store session).filePath = (manager.store session).filePath
  eventPath : ∀ session, (next.store session).eventPath = (manager.store session).eventPath
  stateFilePath : ∀ session,
    (next.store session).stateFilePath = (manager.store session).stateFilePath

/-- Moreover no open session stops watching. -/
structure Idles (manager next : Manager) : Prop extends Recedes manager next where
  watching : ∀ session, (next.store session).isOpened = true →
    (next.store session).watching = true ∨ (manager.store session).isOpened = true ∧
      ((manager.store session).watching = true → (next.store session).watching = true)

/-- A step that leaves the sessions alone and takes entries out of the map. -/
theorem Shrinks.idles {manager next : Manager} (shrinks : manager.Shrinks next)
    (store : next.store = manager.store) : manager.Idles next := by
  refine ⟨⟨shrinks, ?_, ?_, ?_⟩, ?_⟩ <;> intro session <;> rw [store]
  exact fun opened => .inr ⟨opened, id⟩

theorem Idles.refl (manager : Manager) : manager.Idles manager := (Shrinks.refl manager).idles rfl

theorem Idles.trans {first second third : Manager} (before : first.Idles second)
    (after : second.Idles third) : first.Idles third where
  toShrinks := before.toShrinks.trans after.toShrinks
  filePath session := (after.filePath session).trans (before.filePath session)
  eventPath session := (after.eventPath session).trans (before.eventPath session)
  stateFilePath session := (after.stateFilePath session).trans (before.stateFilePath session)
  watching session opened := by
    rcases after.watching session opened with watching | ⟨middle, keeps⟩
    · exact .inl watching
    · rcases before.watching session middle with watching | ⟨first, kept⟩
      · exact .inl (keeps watching)
      · exact .inr ⟨first, fun watching => keeps (kept watching)⟩

theorem idles_frame {manager next : Manager} (sessions : next.sessions = manager.sessions)
    (store : next.store = manager.store) (fresh : next.fresh = manager.fresh) :
    manager.Idles next := by
  refine Shrinks.idles ⟨?_, fresh⟩ store
  rw [sessions]
  exact .refl _

/-- An idle timer changes no session. -/
theorem store_scheduleIdleClose (manager : Manager) (vaultPath : JsString) :
    (manager.scheduleIdleClose vaultPath).store = manager.store := by
  unfold scheduleIdleClose
  split
  · rfl
  · split
    · rfl
    · dsimp only
      split <;> rfl

/-- Going on with a removal changes no session. -/
theorem store_removeNext (manager : Manager) (diskDeleted subtree : Bool)
    (paths : List JsString) :
    (manager.removeNext diskDeleted subtree paths).1.store = manager.store :=
  @removeNext_induction (fun before next => next.store = before.store) (fun _ => rfl)
    (fun _ _ _ same => same) manager diskDeleted subtree paths

/-- A change of one session that keeps its paths. -/
theorem recedes_update (manager : Manager) (session : Nat) {change : Managed → Managed}
    (filePath : ∀ managed, (change managed).filePath = managed.filePath)
    (eventPath : ∀ managed, (change managed).eventPath = managed.eventPath)
    (stateFilePath : ∀ managed, (change managed).stateFilePath = managed.stateFilePath) :
    manager.Recedes (manager.update session change) :=
  ⟨⟨.refl _, rfl⟩, fun other => manager.store_update_field session other filePath,
    fun other => manager.store_update_field session other eventPath,
    fun other => manager.store_update_field session other stateFilePath⟩

/-- A session that stops watching recedes. -/
theorem recedes_stopWatching (manager : Manager) (session : Nat) :
    manager.Recedes (manager.update session Managed.stopWatching) :=
  recedes_update manager session (fun _ => rfl) (fun _ => rfl) fun _ => rfl

theorem idles_update (manager : Manager) (session : Nat) {change : Managed → Managed}
    (recedes : manager.Recedes (manager.update session change))
    (watching : (change (manager.store session)).isOpened = true →
      (change (manager.store session)).watching = true ∨
        (manager.store session).isOpened = true ∧ ((manager.store session).watching = true →
          (change (manager.store session)).watching = true)) :
    manager.Idles (manager.update session change) := by
  refine ⟨recedes, fun other opened => ?_⟩
  by_cases same : other = session
  · subst same
    rw [store_update_self] at opened ⊢
    exact watching opened
  · rw [store_update_of_ne manager same] at opened ⊢
    exact .inr ⟨opened, id⟩

theorem idles_open (manager : Manager) (session : Nat) :
    manager.Idles (manager.update session Managed.open_) :=
  idles_update manager session
    (recedes_update manager session (fun _ => rfl) (fun _ => rfl) fun _ => rfl)
    fun _ => .inl rfl

theorem idles_persisted (manager : Manager) (session : Nat) (failed : Bool) :
    manager.Idles
      (manager.update session fun managed => { managed with persistFailed := failed }) :=
  idles_update manager session
    (recedes_update manager session (fun _ => rfl) (fun _ => rfl) fun _ => rfl)
    fun opened => .inr ⟨opened, id⟩

/-- A session that goes on watching does so unless it is deleted. -/
theorem resumeWatching_watching {managed : Managed}
    (opened : managed.resumeWatching.isOpened = true) :
    managed.resumeWatching.watching = true := by
  unfold Managed.resumeWatching Managed.isOpened at *
  split at opened
  · rename_i deleted
    simp [deleted] at opened
  · rename_i live
    rw [if_neg live]
    rfl

theorem idles_resumeWatching (manager : Manager) (session : Nat) :
    manager.Idles (manager.update session Managed.resumeWatching) := by
  refine idles_update manager session ?_ fun opened => .inl (resumeWatching_watching opened)
  apply recedes_update <;> intro managed <;> unfold Managed.resumeWatching <;> split <;> rfl

theorem idles_startWatching (manager : Manager) (session : Nat) :
    manager.Idles (manager.update session Managed.startWatching) :=
  idles_update manager session
    (recedes_update manager session (fun _ => rfl) (fun _ => rfl) fun _ => rfl)
    fun _ => .inl rfl

theorem deleted_markDeleted (manager : Manager) (session : Nat) :
    ((manager.markDeleted session).store session).deleted = true := by
  unfold markDeleted
  split
  · assumption
  · rename_i live
    change ((manager.update session Managed.markDeleted).store session).deleted = true
    rw [store_update_self]
    unfold Managed.markDeleted
    rw [if_neg live]

theorem idles_markDeleted (manager : Manager) (session : Nat) :
    manager.Idles (manager.markDeleted session) := by
  unfold markDeleted
  split
  · exact .refl manager
  · rename_i live
    have updated : manager.Idles (manager.update session Managed.markDeleted) := by
      apply idles_update
      · apply recedes_update <;> intro managed <;> unfold Managed.markDeleted <;> split <;> rfl
      · intro opened
        unfold Managed.isOpened Managed.markDeleted at opened
        rw [if_neg live] at opened
        simp at opened
    exact updated.trans (Shrinks.idles ⟨Table.within_deleteValue _ _, rfl⟩ rfl)

/-- The registry after a step that keeps the paths of the sessions: what remains is what
becomes of the sessions that are being rewritten, and who watches. -/
theorem Registered.recedes {manager next : Manager} (registered : manager.Registered layout)
    (recedes : manager.Recedes next) (keyed : next.Keyed)
    (named : ∀ vaultPath session, next.sessions.Holds vaultPath session →
      (∃ work ∈ manager.running, work.Rewrites session) →
        ∃ work ∈ next.running, work.Rewrites session)
    (watched : ∀ vaultPath session, next.sessions.Holds vaultPath session →
      (next.store session).isOpened = true → (next.store session).watching = true ∨
        ∃ work ∈ next.running, work.Suspends session)
    (binds : ∀ work ∈ next.running, next.Binds work) : next.Registered layout where
  keyed := keyed
  located session below := by
    rw [recedes.filePath, recedes.eventPath, recedes.stateFilePath]
    rw [recedes.fresh] at below
    exact registered.located session below
  named vaultPath session held := by
    rw [recedes.eventPath]
    rcases registered.named vaultPath session (recedes.sessions.holds held) with here | rewritten
    · exact .inl here
    · exact .inr (named vaultPath session held rewritten)
  watched := watched
  binds := binds

/-- Who watches after a step of somebody else. -/
theorem Registered.watched_of_idles {manager next : Manager}
    (registered : manager.Registered layout) (idles : manager.Idles next) {vaultPath : JsString}
    {session : Nat} (held : next.sessions.Holds vaultPath session)
    (opened : (next.store session).isOpened = true) : (next.store session).watching = true ∨
      ∃ work ∈ manager.running, work.Suspends session := by
  rcases idles.watching session opened with watching | ⟨before, keeps⟩
  · exact .inl watching
  · rcases registered.watched vaultPath session (idles.sessions.holds held) before with
      here | resting
    · exact .inl (keeps here)
    · exact .inr resting

theorem Binds.idles {manager next : Manager} {work : Work} (binds : manager.Binds work)
    (idles : manager.Idles next) : next.Binds work := by
  cases work with
  | preparing branches => exact binds
  | moving branches diskPending =>
      intro branch member writing
      rw [idles.eventPath]
      exact binds branch member writing
  | closing vaultPath session =>
      refine ⟨?_, fun opened => ?_⟩
      · rw [idles.eventPath]
        exact binds.1
      · rcases idles.watching session opened with watching | ⟨before, keeps⟩
        · exact watching
        · exact keeps (binds.2 before)
  | _ => trivial

theorem Registered.idles {manager next : Manager} (registered : manager.Registered layout)
    (idles : manager.Idles next) (keyed : next.Keyed)
    (running : next.running = manager.running) : next.Registered layout := by
  refine registered.recedes idles.toRecedes keyed ?_ ?_ ?_
  · rw [running]
    exact fun _ _ _ => id
  · rw [running]
    exact fun vaultPath session => registered.watched_of_idles idles
  · rw [running]
    exact fun work runs => (registered.binds work runs).idles idles

/-- The registry after a step of the running mutation that takes no session anywhere. -/
theorem Registered.goesOn {manager next : Manager} (registered : manager.Registered layout)
    {work nextWork : Work} (running : manager.running = some work) (idles : manager.Idles next)
    (keyed : { next with running := some nextWork }.Keyed)
    (rewrites : ∀ session, ¬ work.Rewrites session)
    (suspends : ∀ session, work.Suspends session → (next.store session).isOpened = true →
      (next.store session).watching = true ∨ nextWork.Suspends session)
    (binds : next.Binds nextWork) : { next with running := some nextWork }.Registered layout := by
  have same : next.Idles { next with running := some nextWork } := idles_frame rfl rfl rfl
  refine registered.recedes (idles.trans same).toRecedes keyed ?_ ?_ ?_
  · rintro vaultPath session _ ⟨other, runs, rewritten⟩
    rw [running] at runs
    obtain rfl := Option.some.inj runs
    exact absurd rewritten (rewrites session)
  · intro vaultPath session held opened
    rcases registered.watched_of_idles idles held opened with watching | ⟨other, runs, suspended⟩
    · exact .inl watching
    · rw [running] at runs
      obtain rfl := Option.some.inj runs
      rcases suspends session suspended opened with watching | resting
      · exact .inl watching
      · exact .inr ⟨nextWork, rfl, resting⟩
  · rintro other runs
    obtain rfl := Option.some.inj runs
    exact binds.idles same

/-- The registry after the running mutation has made one session stop watching. -/
theorem Registered.stops {manager : Manager} (registered : manager.Registered layout)
    {work nextWork : Work} (running : manager.running = some work) (session : Nat)
    (rewrites : ∀ other, ¬ work.Rewrites other)
    (suspends : ∀ other, work.Suspends other → nextWork.Suspends other)
    (stopped : nextWork.Suspends session ∨ ∀ vaultPath, ¬ manager.sessions.Holds vaultPath session)
    (keyed : { manager.update session Managed.stopWatching with
      running := some nextWork }.Keyed)
    (binds : (manager.update session Managed.stopWatching).Binds nextWork) :
    { manager.update session Managed.stopWatching with
      running := some nextWork }.Registered layout := by
  have same : (manager.update session Managed.stopWatching).Idles
      { manager.update session Managed.stopWatching with running := some nextWork } :=
    idles_frame rfl rfl rfl
  have recedes := recedes_stopWatching manager session
  refine registered.recedes ⟨⟨recedes.sessions, recedes.fresh⟩, recedes.filePath,
    recedes.eventPath, recedes.stateFilePath⟩ keyed ?_ ?_ ?_
  · rintro vaultPath other _ ⟨old, runs, rewritten⟩
    rw [running] at runs
    obtain rfl := Option.some.inj runs
    exact absurd rewritten (rewrites other)
  · intro vaultPath other held opened
    change ((manager.update session Managed.stopWatching).store other).isOpened = true at opened
    change ((manager.update session Managed.stopWatching).store other).watching = true ∨ _
    by_cases this : other = session
    · subst this
      rcases stopped with suspended | absent
      · exact .inr ⟨nextWork, rfl, suspended⟩
      · exact absurd held (absent vaultPath)
    · rw [store_update_of_ne manager this] at opened ⊢
      rcases registered.watched vaultPath other held opened with watching | ⟨old, runs, suspended⟩
      · exact .inl watching
      · rw [running] at runs
        obtain rfl := Option.some.inj runs
        exact .inr ⟨nextWork, rfl, suspends other suspended⟩
  · intro other runs
    obtain rfl := Option.some.inj runs
    exact binds.idles same

/-- A suspended session of a move stays one unless it is the one that takes the step. -/
theorem suspended_setStage {branches : List Branch} {index : Nat} {branch : Branch}
    (found : branches[index]? = some branch) (stage : Stage) {session : Nat}
    (suspended : ∃ other ∈ branches, other.session = session ∧ other.stage.isSuspended = true) :
    (∃ other ∈ setStage branches index branch stage,
        other.session = session ∧ other.stage.isSuspended = true) ∨
      branch.session = session ∧ branch.stage.isSuspended = true := by
  obtain ⟨other, member, same, rests⟩ := suspended
  rcases mem_setStage_of_mem found stage member with rfl | kept
  · exact .inr ⟨same, rests⟩
  · exact .inl ⟨other, kept, same, rests⟩

theorem binds_preparing {manager : Manager} {branches : List Branch} {index : Nat}
    {branch : Branch} {stage : Stage} (binds : manager.Binds (.preparing branches))
    (found : branches[index]? = some branch) (alive : branch.stage ≠ .failed)
    (ends : stage = .failed → ∀ other ∈ branches.eraseIdx index, other.stage = .failed) :
    manager.Binds (.preparing (setStage branches index branch stage)) := by
  rintro ⟨other, member, failed⟩
  rcases mem_setStage member with old | rfl
  · exact absurd (binds ⟨other, List.mem_of_mem_eraseIdx old, failed⟩ branch
      (List.mem_of_getElem? found)) alive
  · obtain rfl : stage = .failed := failed
    intro last kept
    rcases mem_setStage kept with old | rfl
    · exact ends rfl last old
    · rfl

theorem strands_preparing {manager : Manager} {branches : List Branch} {index : Nat}
    {branch : Branch} {succeeds : Bool} (found : branches[index]? = some branch)
    (fails : manager.failsPreparing branch succeeds = true)
    (allowed : manager.strands (.preparing branches) (.branch index succeeds) = false) :
    ∀ other ∈ branches.eraseIdx index, other.stage = .failed := by
  simp only [strands] at allowed
  rw [found] at allowed
  dsimp only at allowed
  rw [fails, Bool.true_and, List.any_eq_false] at allowed
  exact fun other member => by simpa using allowed other member

/-- When the move on disk fails, every session that is not deleted watches again. -/
theorem idles_transitBranch (manager : Manager) (branch : Branch) :
    manager.Idles (manager.transitBranch layout false branch).1 := by
  unfold transitBranch
  split
  · split
    · exact .refl manager
    · exact idles_startWatching manager branch.session
  · exact .refl manager

theorem idles_transit (manager : Manager) (branches : List Branch) :
    manager.Idles (manager.transit layout false branches).1 := by
  induction branches generalizing manager with
  | nil => exact .refl manager
  | cons branch branches ih => exact (idles_transitBranch manager branch).trans (ih _)

theorem watching_transit (manager : Manager) {branches : List Branch}
    (waiting : ∀ branch ∈ branches, branch.stage = .moving) {branch : Branch}
    (member : branch ∈ branches)
    (opened : ((manager.transit layout false branches).1.store branch.session).isOpened = true) :
    ((manager.transit layout false branches).1.store branch.session).watching = true := by
  induction branches generalizing manager with
  | nil => cases member
  | cons first rest ih =>
      rcases List.mem_cons.mp member with rfl | later
      · have idles : Idles _ (manager.transit layout false (branch :: rest)).1 :=
          @idles_transit layout (manager.transitBranch layout false branch).1 rest
        rcases idles.watching branch.session opened with watching | ⟨before, keeps⟩
        · exact watching
        · apply keeps
          unfold transitBranch at before ⊢
          rw [waiting branch List.mem_cons_self] at before ⊢
          dsimp only at before ⊢
          split
          · rename_i deleted
            rw [if_pos deleted] at before
            simp [Managed.isOpened, deleted] at before
          · rw [if_neg Bool.false_ne_true, store_update_self]
            rfl
      · exact ih _ (fun other listed => waiting other (List.mem_cons_of_mem _ listed)) later opened

/-- A session that does not take part keeps what it is. -/
theorem transit_other (manager : Manager) (moved : Bool) {branches : List Branch} {session : Nat}
    (apart : ∀ branch ∈ branches, branch.session ≠ session) :
    (manager.transit layout moved branches).1.store session = manager.store session := by
  induction branches generalizing manager with
  | nil => rfl
  | cons branch branches ih =>
      have different := Ne.symm (apart branch List.mem_cons_self)
      have first : (manager.transitBranch layout moved branch).1.store session =
          manager.store session := by
        unfold transitBranch
        split
        · split
          · rfl
          · split
            · exact store_update_of_ne manager different fun managed =>
                managed.rebind layout branch.toPath
            · exact store_update_of_ne manager different Managed.startWatching
        · rfl
      exact (ih _ fun other member => apart other (List.mem_cons_of_mem _ member)).trans first

/-- Every session whose files have moved is bound to its new path. -/
theorem transit_bound (manager : Manager) {branches : List Branch}
    (distinct : (branches.map Branch.session).Nodup)
    (waiting : ∀ branch ∈ branches, branch.stage = .moving)
    (live : ∀ branch ∈ branches, (manager.store branch.session).deleted = false) {branch : Branch}
    (member : branch ∈ branches) :
    (manager.transit layout true branches).1.store branch.session =
      (manager.store branch.session).rebind layout branch.toPath := by
  induction branches generalizing manager with
  | nil => cases member
  | cons first rest ih =>
      rw [List.map_cons, List.nodup_cons] at distinct
      have apart : ∀ other ∈ rest, other.session ≠ first.session := fun other listed same =>
        distinct.1 (same ▸ List.mem_map_of_mem listed)
      have bound : (manager.transitBranch layout true first).1 =
          manager.update first.session fun session => session.rebind layout first.toPath := by
        unfold transitBranch
        rw [waiting first List.mem_cons_self]
        dsimp only
        rw [live first List.mem_cons_self]
        rfl
      have others : ∀ other ∈ rest, (manager.transitBranch layout true first).1.store
          other.session = manager.store other.session := fun other listed => by
        rw [bound, store_update_of_ne manager (apart other listed)]
      rcases List.mem_cons.mp member with rfl | later
      · refine (transit_other _ true apart).trans ?_
        rw [bound, store_update_self]
      · rw [← others branch later]
        refine ih _ distinct.2 (fun other listed => waiting other (List.mem_cons_of_mem _ listed))
          (fun other listed => ?_) later
        rw [others other listed]
        exact live other (List.mem_cons_of_mem _ listed)

/-- The folder is moved on disk and all sessions are bound to their new paths. -/
theorem Registered.bound {manager : Manager} (registered : manager.Registered layout)
    {branches : List Branch} (running : manager.running = some (.moving branches true))
    (waiting : ∀ branch ∈ branches, branch.stage = .moving)
    (live : ∀ branch ∈ branches, (manager.store branch.session).deleted = false)
    (keyed : { (manager.transit layout true branches).1 with
      running := some (.moving (manager.transit layout true branches).2 false) }.Keyed) :
    { (manager.transit layout true branches).1 with
      running := some (.moving (manager.transit layout true branches).2 false) }.Registered
        layout := by
  obtain ⟨carries, _⟩ := registered.keyed.tracks _ running
  obtain ⟨sessions, fresh⟩ := @sessions_transit layout manager true branches
  have arrived : ∀ branch ∈ branches, manager.arrival true branch = .writing := by
    intro branch member
    unfold arrival
    rw [live branch member]
    rfl
  have outcome : (manager.transit layout true branches).2 =
      branches.map fun branch => { branch with stage := .writing } := by
    rw [transit_branches manager true waiting]
    exact List.map_congr_left fun branch member => by rw [arrived branch member]
  have bound := fun branch member =>
    @transit_bound layout manager branches carries.distinct waiting live branch member
  have apart := fun session => @transit_other layout manager true branches session
  rw [outcome] at keyed ⊢
  have keeps : ∀ session,
      ((manager.transit layout true branches).1.store session).isOpened =
          (manager.store session).isOpened ∧
        ((manager.transit layout true branches).1.store session).watching =
          (manager.store session).watching := by
    intro session
    by_cases takes : ∃ branch ∈ branches, branch.session = session
    · obtain ⟨branch, member, rfl⟩ := takes
      rw [bound branch member]
      exact ⟨rfl, rfl⟩
    · rw [apart session fun branch member same => takes ⟨branch, member, same⟩]
      exact ⟨rfl, rfl⟩
  refine ⟨keyed, ?_, ?_, ?_, ?_⟩
  · intro session below
    change session < (transit _ _ _ _).1.fresh at below
    rw [fresh] at below
    dsimp only
    by_cases takes : ∃ branch ∈ branches, branch.session = session
    · obtain ⟨branch, member, rfl⟩ := takes
      rw [bound branch member]
      exact ⟨rfl, rfl⟩
    · rw [apart session fun branch member same => takes ⟨branch, member, same⟩]
      exact registered.located session below
  · intro vaultPath session held
    dsimp only at held ⊢
    rw [sessions] at held
    by_cases takes : ∃ branch ∈ branches, branch.session = session
    · obtain ⟨branch, member, rfl⟩ := takes
      exact .inr ⟨_, rfl, _, List.mem_map_of_mem member, rfl, rfl⟩
    · rw [apart session fun branch member same => takes ⟨branch, member, same⟩]
      rcases registered.named vaultPath session held with here | ⟨work, runs, rewritten⟩
      · exact .inl here
      · rw [running] at runs
        obtain rfl := Option.some.inj runs
        obtain ⟨branch, member, same, _⟩ := rewritten
        exact absurd ⟨branch, member, same⟩ takes
  · intro vaultPath session held opened
    dsimp only at held opened ⊢
    rw [sessions] at held
    rw [(keeps session).1] at opened
    rw [(keeps session).2]
    rcases registered.watched vaultPath session held opened with watching | ⟨work, runs, rests⟩
    · exact .inl watching
    · rw [running] at runs
      obtain rfl := Option.some.inj runs
      obtain ⟨branch, member, same, _⟩ := rests
      exact .inr ⟨_, rfl, _, List.mem_map_of_mem member, same, rfl⟩
  · rintro work runs
    obtain rfl := Option.some.inj runs
    intro branch member _
    obtain ⟨old, listed, rfl⟩ := List.mem_map.mp member
    dsimp only
    rw [bound old listed]
    rfl

/-- A moved session is put under its new path. -/
theorem Registered.rekeyed {manager : Manager} (registered : manager.Registered layout)
    {branches : List Branch} {diskPending : Bool} {index : Nat} {branch : Branch}
    (running : manager.running = some (.moving branches diskPending))
    (found : branches[index]? = some branch) (writing : branch.stage = .writing) :
    { (manager.update branch.session Managed.startWatching).rekeySession branch.fromPath
        branch.toPath branch.session with
      running := some (.moving (setStage branches index branch .done) diskPending) }.Registered
        layout := by
  have listed := List.mem_of_getElem? found
  have written := registered.binds _ running
  have watches := idles_startWatching manager branch.session
  obtain ⟨carries, _⟩ := registered.keyed.tracks _ running
  have homed : ∀ vaultPath, manager.sessions.Holds vaultPath branch.session →
      vaultPath = branch.fromPath :=
    carries.homed branch listed (by rw [writing]; nofun) (by rw [writing]; nofun)
  have moved : ∀ {target : Manager}, target.Keyed →
      target.sessions.Within ((manager.sessions.delete branch.fromPath).set branch.toPath
        branch.session) → target.fresh = manager.fresh →
      target.store = (manager.update branch.session Managed.startWatching).store →
      target.running = some (.moving (setStage branches index branch .done) diskPending) →
        target.Registered layout := by
    intro target keyed within fresh store runs
    refine ⟨keyed, ?_, ?_, ?_, ?_⟩
    · rw [fresh, store]
      intro session below
      rw [watches.filePath, watches.eventPath, watches.stateFilePath]
      exact registered.located session below
    · intro vaultPath session held
      rw [store, watches.eventPath, runs]
      rcases holds_moved homed (within.holds held) with ⟨rfl, rfl⟩ | ⟨different, old⟩
      · exact .inl (written branch listed writing)
      · rcases registered.named vaultPath session old with here | ⟨work, runs, rewritten⟩
        · exact .inl here
        · rw [running] at runs
          obtain rfl := Option.some.inj runs
          obtain ⟨other, member, same, stage⟩ := rewritten
          rcases mem_setStage_of_mem found .done member with rfl | kept
          · exact absurd same.symm different
          · exact .inr ⟨_, rfl, other, kept, same, stage⟩
    · intro vaultPath session held opened
      rw [store] at opened ⊢
      rw [runs]
      rcases holds_moved homed (within.holds held) with ⟨rfl, rfl⟩ | ⟨different, old⟩
      · rw [store_update_self]
        exact .inl rfl
      · rw [store_update_of_ne manager different] at opened ⊢
        rcases registered.watched vaultPath session old opened with here | ⟨work, runs, rests⟩
        · exact .inl here
        · rw [running] at runs
          obtain rfl := Option.some.inj runs
          rcases suspended_setStage found .done rests with stays | ⟨same, _⟩
          · exact .inr ⟨_, rfl, stays⟩
          · exact absurd same.symm different
    · rw [runs]
      rintro work same
      obtain rfl := Option.some.inj same
      intro other member stage
      rw [store, watches.eventPath]
      rcases mem_setStage member with old | rfl
      · exact written other (List.mem_of_mem_eraseIdx old) stage
      · cases stage
  have keyed := registered.keyed.rekeyed running found writing
  unfold rekeySession at keyed ⊢
  dsimp only at keyed ⊢
  split at keyed
  · rename_i used
    rw [if_pos used]
    exact moved keyed (.refl _) rfl rfl rfl
  · rename_i unused
    rw [if_neg unused]
    have armed := shrinks_scheduleIdleClose { ((manager.update branch.session
        Managed.startWatching).cancelIdleClose branch.fromPath).cancelIdleClose branch.toPath with
      sessions := (manager.sessions.delete branch.fromPath).set branch.toPath branch.session }
      branch.toPath
    exact moved keyed armed.sessions armed.fresh (store_scheduleIdleClose ..) rfl

/-- The files of a session that the map no longer holds cannot be rewritten. -/
theorem Registered.writeFails {manager : Manager} (registered : manager.Registered layout)
    {branches : List Branch} {diskPending : Bool} {index : Nat} {branch : Branch}
    (running : manager.running = some (.moving branches diskPending))
    (found : branches[index]? = some branch) (writing : branch.stage = .writing)
    (allowed : manager.strands (.moving branches diskPending) (.branch index false) = false)
    (keyed : { manager with
      running := some (.moving (setStage branches index branch .failed) diskPending) }.Keyed) :
    { manager with
      running := some (.moving (setStage branches index branch .failed) diskPending) }.Registered
        layout := by
  have listed := List.mem_of_getElem? found
  have written := registered.binds _ running
  have tracks := registered.keyed.tracks _ running
  have landed := tracks.landed listed writing
  obtain ⟨carries, _⟩ := tracks
  subst landed
  simp only [strands] at allowed
  rw [found, Option.any_some, Bool.or_eq_false_iff, decide_eq_false_iff_not] at allowed
  have absent : ∀ vaultPath, ¬ manager.sessions.Holds vaultPath branch.session := by
    intro vaultPath held
    have here := carries.homed branch listed (by rw [writing]; nofun) (by rw [writing]; nofun)
      vaultPath held
    exact allowed.2 (registered.keyed.unique.get_eq (here ▸ held))
  have same : manager.Idles { manager with
      running := some (.moving (setStage branches index branch .failed) false) } :=
    idles_frame rfl rfl rfl
  refine registered.recedes same.toRecedes keyed ?_ ?_ ?_
  · rintro vaultPath session held ⟨work, runs, rewritten⟩
    rw [running] at runs
    obtain rfl := Option.some.inj runs
    obtain ⟨other, member, rfl, stage⟩ := rewritten
    rcases mem_setStage_of_mem found .failed member with rfl | kept
    · exact absurd held (absent vaultPath)
    · exact ⟨_, rfl, other, kept, rfl, stage⟩
  · intro vaultPath session held opened
    rcases registered.watched vaultPath session held opened with here | ⟨work, runs, rests⟩
    · exact .inl here
    · rw [running] at runs
      obtain rfl := Option.some.inj runs
      rcases suspended_setStage found .failed rests with stays | ⟨rfl, _⟩
      · exact .inr ⟨_, rfl, stays⟩
      · exact absurd held (absent vaultPath)
  · rintro work runs
    obtain rfl := Option.some.inj runs
    intro other member stage
    rcases mem_setStage member with old | rfl
    · exact written other (List.mem_of_mem_eraseIdx old) stage
    · cases stage

theorem mayRest_rewrites {work : Work} (rests : work.mayRest = true) (session : Nat) :
    ¬ work.Rewrites session := by
  cases work with
  | moving branches diskPending => cases rests
  | _ => exact id

theorem mayRest_suspends {work : Work} (rests : work.mayRest = true) (session : Nat) :
    ¬ work.Suspends session := by
  cases work with
  | preparing branches => cases rests
  | moving branches diskPending => cases rests
  | removing removal paths diskDeleted subtree =>
      rintro ⟨_, goes⟩
      exact goes (by simpa [Work.mayRest] using rests)
  | _ => exact id

theorem binds_removeNext (manager other : Manager) (diskDeleted subtree : Bool)
    (paths : List JsString) : other.Binds (manager.removeNext diskDeleted subtree paths).2 :=
  work_removeNext trivial (fun _ => trivial) (fun _ _ _ _ _ => trivial) manager diskDeleted subtree
    paths

/-- A session that could not be closed is put back. -/
theorem Registered.putBack {manager : Manager} (registered : manager.Registered layout)
    {vaultPath : JsString} {session : Nat}
    (running : manager.running = some (.closing vaultPath session))
    (keyed : { manager with
      sessions := manager.sessions.set vaultPath session
      running := some .settled }.Keyed) :
    { manager with
      sessions := manager.sessions.set vaultPath session
      running := some .settled }.Registered layout := by
  obtain ⟨named, watched⟩ := registered.binds _ running
  have quiet : ∀ other, ¬ ∃ work ∈ manager.running, work.Rewrites other ∨ work.Suspends other := by
    rintro other ⟨work, runs, busy⟩
    rw [running] at runs
    obtain rfl := Option.some.inj runs
    exact busy.elim id id
  refine ⟨keyed, registered.located, ?_, ?_, ?_⟩
  · intro path other held
    rcases Table.holds_set.mp held with ⟨rfl, rfl⟩ | ⟨_, old⟩
    · exact .inl named
    · rcases registered.named path other old with here | ⟨work, runs, busy⟩
      · exact .inl here
      · exact absurd ⟨work, runs, .inl busy⟩ (quiet other)
  · intro path other held opened
    rcases Table.holds_set.mp held with ⟨rfl, rfl⟩ | ⟨_, old⟩
    · exact .inl (watched opened)
    · rcases registered.watched path other old opened with here | ⟨work, runs, busy⟩
      · exact .inl here
      · exact absurd ⟨work, runs, .inr busy⟩ (quiet other)
  · rintro work runs
    obtain rfl := Option.some.inj runs
    trivial

/-- For deleted sessions it makes no difference how the move on disk ends. -/
theorem transit_deleted (manager : Manager) {branches : List Branch}
    (deleted : ∀ branch ∈ branches, (manager.store branch.session).deleted = true) :
    manager.transit layout true branches = manager.transit layout false branches := by
  induction branches generalizing manager with
  | nil => rfl
  | cons branch branches ih =>
      have gone := deleted branch List.mem_cons_self
      have first : ∀ moved, (manager.transitBranch layout moved branch).1 = manager := by
        intro moved
        unfold transitBranch
        rw [gone, if_pos rfl]
        split <;> rfl
      have same : manager.transitBranch layout true branch =
          manager.transitBranch layout false branch := by
        unfold transitBranch
        rw [gone, if_pos rfl, if_pos rfl]
      unfold transit
      rw [same]
      dsimp only
      rw [first false, ih manager fun other member =>
        deleted other (List.mem_cons_of_mem _ member)]

/-- The move on disk has failed and the sessions stay where they are. -/
theorem Registered.stays {manager : Manager} (registered : manager.Registered layout)
    {branches : List Branch} (running : manager.running = some (.moving branches true))
    (waiting : ∀ branch ∈ branches, branch.stage = .moving)
    (keyed : { (manager.transit layout false branches).1 with
      running := some (.moving (manager.transit layout false branches).2 false) }.Keyed) :
    { (manager.transit layout false branches).1 with
      running := some (.moving (manager.transit layout false branches).2 false) }.Registered
        layout := by
  refine registered.goesOn running (idles_transit manager branches) keyed ?_ ?_ ?_
  · rintro session ⟨branch, member, _, writing⟩
    rw [waiting branch member] at writing
    cases writing
  · rintro session ⟨branch, member, rfl, _⟩ opened
    exact .inl (watching_transit manager waiting member opened)
  · rw [transit_branches manager false waiting]
    intro branch member writing
    obtain ⟨old, _, rfl⟩ := List.mem_map.mp member
    dsimp only [arrival] at writing
    split at writing <;> cases writing

theorem scatters_of_strands {manager : Manager} {work : Work} {label : WorkLabel}
    (scattered : manager.scatters work label = true) : manager.strands work label = true := by
  unfold scatters at scattered
  unfold strands
  split at scattered
  · rename_i branches index succeeds
    cases found : branches[index]? with
    | none => simp [found] at scattered
    | some branch =>
      simp only [found] at scattered ⊢
      rw [Bool.and_eq_true, List.any_eq_true] at scattered ⊢
      obtain ⟨fails, other, member, pending⟩ := scattered
      refine ⟨fails, other, member, decide_eq_true fun failed => ?_⟩
      rw [failed] at pending
      cases pending
  · exact scattered
  · exact scattered
  · rename_i branches diskPending index
    cases diskPending <;> exact Bool.or_eq_true_iff.mpr (.inl scattered)
  · cases scattered

/-- **Steps of a mutation.** Unless it strands a session, a step of the running mutation
keeps the registry. -/
theorem Registered.works {manager next : Manager} (registered : manager.Registered layout)
    {work nextWork : Work} {label : WorkLabel} (running : manager.running = some work)
    (allowed : manager.strands work label = false)
    (works : manager.Works layout work label next nextWork) :
    { next with running := some nextWork }.Registered layout := by
  have binds := registered.binds work running
  have keyed := registered.keyed.works running
    (Bool.eq_false_iff.mpr fun scattered => by
      rw [scatters_of_strands scattered] at allowed
      cases allowed) works
  cases works with
  | rest quiet passed =>
      refine registered.goesOn running (.refl manager) keyed (mayRest_rewrites quiet)
        (fun session suspended => absurd suspended (mayRest_suspends quiet session)) ?_
      rcases passed with rfl | rfl <;> trivial
  | prepareFile free =>
      refine registered.goesOn running (.refl manager) keyed (fun _ => id) (fun _ => False.elim) ?_
      rintro ⟨branch, member, failed⟩
      rw [List.mem_singleton.mp member] at failed
      cases failed
  | prepareFolder present =>
      refine registered.goesOn running (.refl manager) keyed (fun _ => id) (fun _ => False.elim) ?_
      rintro ⟨branch, member, failed⟩
      obtain ⟨entry, _, rfl⟩ := List.mem_map.mp member
      cases failed
  | @openFails branches index branch succeeds found opening shut fails =>
      refine registered.goesOn running (.refl manager) keyed (fun _ => id) ?_ ?_
      · intro session suspended _
        rcases suspended_setStage found .failed suspended with stays | ⟨_, rests⟩
        · exact .inr stays
        · rw [opening] at rests
          cases rests
      · refine binds_preparing binds found (by rw [opening]; nofun) fun _ => ?_
        refine strands_preparing found ?_ allowed
        unfold failsPreparing
        rw [opening]
        rcases fails with rfl | deleted
        · rfl
        · dsimp only
          rw [deleted, Bool.or_true]
  | @stopWatching branches index branch found opening live opened =>
      refine registered.stops running branch.session (fun _ => id) ?_ ?_ keyed ?_
      · intro session suspended
        rcases suspended_setStage found .flushing suspended with stays | ⟨_, rests⟩
        · exact stays
        · rw [opening] at rests
          cases rests
      · exact .inl ⟨_, self_mem_setStage found .flushing, rfl, rfl⟩
      · exact binds_preparing binds found (by rw [opening]; nofun) nofun
  | @flushed branches index branch found flushing =>
      refine registered.goesOn running (.refl manager) keyed (fun _ => id) ?_ ?_
      · intro session suspended _
        rcases suspended_setStage found .prepared suspended with stays | ⟨same, _⟩
        · exact .inr stays
        · exact .inr ⟨_, self_mem_setStage found .prepared, same, rfl⟩
      · exact binds_preparing binds found (by rw [flushing]; nofun) nofun
  | @flushFails branches index branch found flushing =>
      refine registered.goesOn running (idles_resumeWatching manager branch.session) keyed
        (fun _ => id) ?_ ?_
      · intro session suspended opened
        rcases suspended_setStage found .failed suspended with stays | ⟨rfl, _⟩
        · exact .inr stays
        · left
          rw [store_update_self] at opened ⊢
          exact resumeWatching_watching opened
      · exact binds_preparing binds found (by rw [flushing]; nofun) fun _ =>
          strands_preparing found (by
            unfold failsPreparing
            rw [flushing]
            rfl) allowed
  | @proceed branches prepared =>
      refine registered.goesOn running (.refl manager) keyed (fun _ => id) ?_ ?_
      · rintro session ⟨branch, member, rfl, _⟩ opened
        refine .inr ⟨_, List.mem_map_of_mem member, rfl, ?_⟩
        dsimp only
        rw [if_neg]
        · rfl
        · intro deleted
          simp [Managed.isOpened, deleted] at opened
      · intro branch member writing
        obtain ⟨old, listed, rfl⟩ := List.mem_map.mp member
        dsimp only at writing
        split at writing <;> cases writing
  | @transit branches moved =>
      obtain ⟨_, _, waits, _⟩ := registered.keyed.tracks _ running
      rcases waits rfl with waiting | failed
      · cases moved with
        | false => exact registered.stays running waiting keyed
        | true =>
            rcases mixed_eq_false allowed with live | dead
            · exact registered.bound running waiting live keyed
            · rw [transit_deleted manager dead] at keyed ⊢
              exact registered.stays running waiting keyed
      · rw [transit_dead manager moved failed] at keyed ⊢
        refine registered.goesOn running (.refl manager) keyed ?_ ?_ binds
        · rintro session ⟨branch, member, _, writing⟩
          rw [failed branch member] at writing
          cases writing
        · rintro session ⟨branch, member, _, rests⟩
          rw [failed branch member] at rests
          cases rests
  | rekeyed found writing => exact registered.rekeyed running found writing
  | writeFails found writing => exact registered.writeFails running found writing allowed keyed
  | @removeStops removal paths diskDeleted subtree label opening =>
      refine registered.stops running removal.session (fun _ => id) ?_ ?_ keyed trivial
      · rintro session ⟨same, _⟩
        exact ⟨same, nofun⟩
      · exact .inl ⟨rfl, nofun⟩
  | removeGoesOn goes going =>
      refine registered.goesOn running (.refl manager) keyed (fun _ => id) ?_ trivial
      rintro session ⟨same, _⟩ _
      exact .inr ⟨same, going⟩
  | @removeFails removal paths diskDeleted subtree label =>
      refine registered.goesOn running (idles_resumeWatching manager removal.session) keyed
        (fun _ => id) ?_ trivial
      rintro session ⟨rfl, _⟩ opened
      left
      rw [store_update_self] at opened ⊢
      exact resumeWatching_watching opened
  | @removed removal paths diskDeleted subtree label =>
      have later : Idles (manager.markDeleted removal.session) _ :=
        Shrinks.idles ((shrinks_delete _ removal.path).trans
          (shrinks_removeNext _ diskDeleted subtree paths)) (store_removeNext ..)
      refine registered.goesOn running ((idles_markDeleted manager removal.session).trans later)
        keyed (fun _ => id) ?_ (binds_removeNext ..)
      rintro session ⟨rfl, _⟩ opened
      rcases later.watching removal.session opened with watching | ⟨before, _⟩
      · exact .inl watching
      · simp [Managed.isOpened, deleted_markDeleted] at before
  | @removedBare paths label =>
      exact registered.goesOn running
        ((shrinks_removeNext manager true true paths).idles (store_removeNext ..)) keyed
        (fun _ => id) (fun _ => False.elim) (binds_removeNext ..)
  | @closed vaultPath session label sound =>
      obtain ⟨_, absent⟩ := registered.keyed.tracks _ running
      exact registered.stops running session (fun _ => id) (fun _ => False.elim) (.inr absent)
        keyed trivial
  | closeFails failed => exact registered.putBack running keyed

theorem Registered.created {manager : Manager} (registered : manager.Registered layout)
    (vaultPath : JsString) :
    { manager with
      sessions := manager.sessions.set vaultPath manager.fresh
      store := Function.update manager.store manager.fresh (.fresh layout vaultPath)
      fresh := manager.fresh + 1 }.Registered layout := by
  have keyed := registered.keyed
  have old : ∀ session, session < manager.fresh →
      Function.update manager.store manager.fresh (.fresh layout vaultPath) session =
        manager.store session :=
    fun session below => Function.update_of_ne (Nat.ne_of_lt below) ..
  refine ⟨keyed.created vaultPath _, ?_, ?_, ?_, ?_⟩
  · intro session below
    dsimp only
    rcases Nat.lt_succ_iff_lt_or_eq.mp below with before | rfl
    · rw [old session before]
      exact registered.located session before
    · rw [Function.update_self]
      exact ⟨rfl, rfl⟩
  · intro path session held
    dsimp only
    rcases Table.holds_set.mp held with ⟨rfl, rfl⟩ | ⟨_, before⟩
    · rw [Function.update_self]
      exact .inl rfl
    · rw [old session (keyed.known path session before)]
      exact registered.named path session before
  · intro path session held opened
    dsimp only at opened ⊢
    rcases Table.holds_set.mp held with ⟨rfl, rfl⟩ | ⟨_, before⟩
    · rw [Function.update_self] at opened
      cases opened
    · rw [old session (keyed.known path session before)] at opened ⊢
      exact registered.watched path session before opened
  · intro work runs
    have binds := registered.binds work runs
    have tracks := keyed.tracks work runs
    cases work with
    | preparing branches => exact binds
    | moving branches diskPending =>
        intro branch member writing
        dsimp only
        rw [old branch.session (tracks.1.known branch member)]
        exact binds branch member writing
    | closing path session =>
        refine ⟨?_, ?_⟩
        · dsimp only
          rw [old session tracks.1]
          exact binds.1
        · dsimp only
          rw [old session tracks.1]
          exact binds.2
    | _ => trivial

theorem Registered.getSession {manager : Manager} (registered : manager.Registered layout)
    (vaultPath : JsString) : (manager.getSession layout vaultPath).1.Registered layout := by
  have cancelled : (manager.cancelIdleClose vaultPath).Registered layout :=
    registered.idles (idles_frame rfl rfl rfl) (registered.keyed.keeps ⟨.refl _, rfl⟩ rfl rfl) rfl
  unfold Manager.getSession
  dsimp only
  split
  · exact cancelled
  · exact cancelled.created vaultPath

/-- The first mutation begins. -/
theorem Registered.begins {manager : Manager} (registered : manager.Registered layout)
    (idle : manager.running = none) (mutation : Mutation) :
    { (manager.begin_ mutation).1 with
      running := some (manager.begin_ mutation).2 }.Registered layout := by
  have quiet : ∀ {work : Work}, work ∉ manager.running := by
    rw [idle]
    exact nofun
  have keyed := registered.keyed.begins mutation
  have starts : ∀ {next : Manager} {work : Work}, manager.Idles next → next.Binds work →
      { next with running := some work }.Keyed →
        { next with running := some work }.Registered layout := by
    intro next work idles binds keyed
    have same : next.Idles { next with running := some work } := idles_frame rfl rfl rfl
    refine registered.recedes (idles.trans same).toRecedes keyed ?_ ?_ ?_
    · rintro vaultPath session _ ⟨other, runs, _⟩
      exact absurd runs quiet
    · intro vaultPath session held opened
      rcases registered.watched_of_idles idles held opened with watching | ⟨other, runs, _⟩
      · exact .inl watching
      · exact absurd runs quiet
    · rintro other runs
      obtain rfl := Option.some.inj runs
      exact binds.idles same
  cases mutation with
  | moveSession fromPath toPath => exact starts (.refl manager) trivial keyed
  | moveSessionSubtree fromFolder toFolder => exact starts (.refl manager) trivial keyed
  | deleteSession path =>
      exact starts ((shrinks_removeNext manager false false [path]).idles (store_removeNext ..))
        (binds_removeNext ..) keyed
  | deleteSessionSubtree folderPath =>
      exact starts ((shrinks_removeNext manager false true _).idles (store_removeNext ..))
        (binds_removeNext ..) keyed
  | withStablePath vaultPath => exact starts (.refl manager) trivial keyed
  | closeSession vaultPath =>
      have cancelled : manager.Idles (manager.cancelIdleClose vaultPath) := idles_frame rfl rfl rfl
      dsimp only [begin_] at keyed ⊢
      unfold closeSessionUnlocked at keyed ⊢
      dsimp only at keyed ⊢
      split
      · rename_i absent
        rw [absent] at keyed
        exact starts cancelled trivial keyed
      · rename_i session found
        rw [found] at keyed
        dsimp only at keyed
        have held : manager.sessions.Holds vaultPath session := Table.holds_of_get found
        split
        · rename_i used
          rw [if_pos used] at keyed
          exact starts cancelled trivial keyed
        · rename_i unused
          rw [if_neg unused] at keyed
          split
          · rename_i failed
            rw [if_pos failed] at keyed
            exact starts cancelled trivial keyed
          · rename_i sound
            rw [if_neg sound] at keyed
            refine starts (Shrinks.idles ⟨Table.within_delete _ _, rfl⟩ rfl) ⟨?_, fun opened => ?_⟩
              keyed
            · rcases registered.named vaultPath session held with here | ⟨work, runs, _⟩
              · exact here
              · exact absurd runs quiet
            · rcases registered.watched vaultPath session held opened with here | ⟨work, runs, _⟩
              · exact here
              · exact absurd runs quiet

/-- The release of a lease changes no session. -/
theorem store_release {manager next : Manager} {index : Nat}
    (released : manager.release index = some next) : next.store = manager.store := by
  unfold release at released
  split at released
  · cases released
  · split at released
    · cases released
      rfl
    · dsimp only at released
      split at released
      · cases released
        rfl
      · split at released
        · cases released
          rfl
        · obtain rfl := Option.some.inj released
          exact store_scheduleIdleClose _ _

theorem store_finishOperation {manager next : Manager} {index : Nat}
    (finished : manager.finishOperation index = some next) : next.store = manager.store := by
  unfold finishOperation at finished
  split at finished
  · cases finished
  · split at finished
    · cases finished
    · dsimp only at finished
      split at finished
      · cases finished
        rfl
      · obtain rfl := Option.some.inj finished
        exact store_scheduleIdleClose _ _

/-- When the promise of a mutation is settled, it suspends no session. -/
theorem settled_suspends {manager : Manager} {work : Work}
    (tracks : work.Tracks manager.sessions manager.fresh) (binds : manager.Binds work)
    (settled : work.isSettled = true) (session : Nat) :
    ¬ work.Rewrites session ∧ ¬ work.Suspends session := by
  cases work with
  | preparing branches =>
      have failed := binds (Work.isSettled_preparing.mp settled)
      refine ⟨id, ?_⟩
      rintro ⟨branch, member, _, rests⟩
      rw [failed branch member] at rests
      cases rests
  | moving branches diskPending =>
      obtain ⟨_, _, waits, stages, together⟩ := tracks
      have passed : ∀ branch ∈ branches, branch.stage.isPending = false := by
        rcases Work.isSettled_moving.mp settled with failed | done
        · exact together failed
        · intro branch member
          rw [done branch member]
          rfl
      have awake : ∀ branch ∈ branches, branch.stage.isSuspended = false := by
        intro branch member
        have rests := passed branch member
        cases diskPending with
        | true =>
            rcases waits rfl with moving | failed
            · rw [moving branch member] at rests
              cases rests
            · rw [failed branch member]
              rfl
        | false =>
            rcases stages rfl branch member with stage | stage | stage
            · rw [stage] at rests
              cases rests
            · rw [stage]
              rfl
            · rw [stage]
              rfl
      constructor
      · rintro ⟨branch, member, _, writing⟩
        have rests := passed branch member
        rw [writing] at rests
        cases rests
      · rintro ⟨branch, member, _, rests⟩
        exact absurd (rests.symm.trans (awake branch member)) nofun
  | settled => exact ⟨id, id⟩
  | _ => cases settled

theorem Registered.step {manager next : Manager} {label : ManagerLabel}
    (registered : manager.Registered layout) (allowed : ¬ manager.Guards strands label)
    (stepped : (managerMachine layout).step manager label = some next) :
    next.Registered layout := by
  have keyed : next.Keyed := registered.keyed.step
    (fun scattered => allowed (scattered.mono fun _ _ => scatters_of_strands)) stepped
  cases label with
  | attachClientSession vaultPath =>
      dsimp only [managerMachine] at stepped
      unfold attachClientSession at stepped
      split at stepped
      · cases stepped
      · obtain rfl := Option.some.inj stepped
        exact (registered.getSession vaultPath).idles (idles_frame rfl rfl rfl) keyed rfl
  | release index =>
      exact registered.idles ((shrinks_release stepped).idles (store_release stepped)) keyed
        (congrArg MutationState.running (mutations_release stepped))
  | awaitAvailable vaultPath =>
      dsimp only [managerMachine] at stepped
      split at stepped
      · cases stepped
      · cases stepped
        exact registered.idles (idles_frame rfl rfl rfl) keyed rfl
  | withSession vaultPath =>
      dsimp only [managerMachine] at stepped
      unfold withSession at stepped
      split at stepped
      · dsimp only at stepped
        split at stepped
        · cases stepped
          exact registered.idles (idles_frame rfl rfl rfl) keyed rfl
        · obtain rfl := Option.some.inj stepped
          have resumed : Manager.Registered layout ({ manager with
              available := manager.available.erase vaultPath }.cancelIdleClose vaultPath) :=
            registered.idles (idles_frame rfl rfl rfl)
              (registered.keyed.keeps ⟨.refl _, rfl⟩ rfl rfl) rfl
          exact (resumed.getSession vaultPath).idles (idles_frame rfl rfl rfl) keyed rfl
      · cases stepped
  | finishOperation index =>
      exact registered.idles
        ((shrinks_finishOperation stepped).idles (store_finishOperation stepped)) keyed
        (congrArg MutationState.running (mutations_finishOperation stepped))
  | opened session =>
      dsimp only [managerMachine] at stepped
      split at stepped
      · cases stepped
        exact registered.idles (idles_open manager session) keyed rfl
      · cases stepped
  | missing session =>
      dsimp only [managerMachine] at stepped
      split at stepped
      · cases stepped
        exact registered.idles (idles_markDeleted manager session) keyed
          (congrArg MutationState.running (mutations_markDeleted manager session))
      · cases stepped
  | persisted session failed =>
      dsimp only [managerMachine] at stepped
      split at stepped
      · cases stepped
        exact registered.idles (idles_persisted manager session failed) keyed rfl
      · cases stepped
  | idleTimer vaultPath =>
      dsimp only [managerMachine] at stepped
      split at stepped
      · cases stepped
        exact registered.idles (idles_frame rfl rfl rfl) keyed rfl
      · cases stepped
  | call mutation =>
      dsimp only [managerMachine] at stepped
      split at stepped
      · cases stepped
      · cases stepped
        exact registered.idles (idles_frame rfl rfl rfl) keyed rfl
  | begin_ =>
      dsimp only [managerMachine] at stepped
      split at stepped
      · rename_i call queue idle waiting
        obtain rfl := Option.some.inj stepped
        exact registered.begins idle call.mutation
      · cases stepped
  | work label =>
      dsimp only [managerMachine] at stepped
      split at stepped
      · cases stepped
      · rename_i work running
        obtain ⟨⟨result, nextWork⟩, moved, rfl⟩ := Option.map_eq_some_iff.mp stepped
        refine registered.works running ?_ (works_of_workStep moved)
        simp only [Guards] at allowed
        rw [running] at allowed
        exact Bool.eq_false_iff.mpr allowed
  | settle =>
      dsimp only [managerMachine] at stepped
      split at stepped
      · rename_i work call queue running waiting
        split at stepped
        · rename_i settled
          obtain rfl := Option.some.inj stepped
          have quiet := settled_suspends (registered.keyed.tracks work running)
            (registered.binds work running) settled
          refine registered.recedes (Idles.toRecedes (idles_frame rfl rfl rfl)) keyed ?_ ?_ ?_
          · rintro vaultPath session _ ⟨other, runs, rewritten⟩
            rw [running] at runs
            obtain rfl := Option.some.inj runs
            exact absurd rewritten (quiet session).1
          · intro vaultPath session held opened
            rcases registered.watched vaultPath session held opened with here | ⟨other, runs, rests⟩
            · exact .inl here
            · rw [running] at runs
              obtain rfl := Option.some.inj runs
              exact absurd rests (quiet session).2
          · intro other runs
            cases runs
        · cases stepped
      · cases stepped
  | detached index label =>
      dsimp only [managerMachine] at stepped
      split at stepped
      · cases stepped
      · rename_i work found
        obtain ⟨⟨result, nextWork⟩, moved, rfl⟩ := Option.map_eq_some_iff.mp stepped
        obtain ⟨rfl, _⟩ := dead_works (registered.keyed.detached work
          (List.mem_of_getElem? found)) (works_of_workStep moved)
        exact registered.idles (idles_frame rfl rfl rfl) keyed rfl

theorem Registered.consistent {manager : Manager} (registered : manager.Registered layout)
    (idle : manager.running = none) : manager.Consistent layout where
  bound vaultPath session held := by
    have named : (manager.store session).eventPath = vaultPath := by
      rcases registered.named vaultPath session held with here | ⟨work, runs, _⟩
      · exact here
      · rw [idle] at runs
        cases runs
    obtain ⟨file, state⟩ := registered.located session (registered.keyed.known vaultPath session held)
    rw [named] at file state
    exact ⟨file, named, state⟩
  once := registered.keyed.injective
  watched vaultPath session held opened := by
    rcases registered.watched vaultPath session held opened with here | ⟨work, runs, _⟩
    · exact here
    · rw [idle] at runs
      cases runs

end Manager

/-- **Sessions lie under the paths they are bound to.** In every run of a new manager in
which no move leaves a session half way, whenever no structure mutation runs: every session
of the map has the files and the event path of its key, lies under no second key, and
watches its file if it is open. -/
theorem registry_consistent {layout : Layout} {target : Manager} {labels : List ManagerLabel}
    (run : (managerMachine layout).Run (fun manager label => ¬ manager.Guards Manager.strands label)
      Manager.empty labels target) (idle : target.running = none) :
    target.Consistent layout := by
  have start : Manager.empty.Registered layout :=
    ⟨Manager.keyed_empty, nofun, nofun, nofun, nofun⟩
  have keep : ∀ (manager : Manager) label next, ¬ manager.Guards Manager.strands label →
      (managerMachine layout).step manager label = some next →
        manager.Registered layout → next.Registered layout :=
    fun _ _ _ allowed stepped registered => registered.step allowed stepped
  have final := run.invariant keep start
  exact final.consistent idle

/-- A note is moved while a client has it open. -/
theorem registry_consistent_moved : ∃ target : Manager,
    target.Consistent ⟨id, id⟩ ∧ target.sessions.entries = [([98], 0)] := by
  obtain ⟨target, run, view⟩ : ∃ target,
      (managerMachine ⟨id, id⟩).Run (fun manager label => ¬ manager.Guards Manager.strands label) Manager.empty
        [.attachClientSession [97], .opened 0, .call (.moveSession [97] [98]), .begin_,
          .work (.stat true), .work (.branch 0 true), .work (.branch 0 true), .work .proceed,
          .work (.ends true), .work (.branch 0 true), .settle] target ∧
        (target.running, target.sessions.entries) = (none, [([98], 0)]) :=
    Machine.evaluate_view (by decide +kernel)
  obtain ⟨idle, entries⟩ := Prod.mk.inj view
  exact ⟨target, registry_consistent run idle, entries⟩

/-- A note is moved on disk and its files cannot be rewritten: its session keeps its old
key, is bound to its new path, and no longer watches. -/
theorem stranded_session : ∃ target : Manager,
    (managerMachine ⟨id, id⟩).Run (fun _ _ => True) Manager.empty
        [.attachClientSession [97], .opened 0, .call (.moveSession [97] [98]), .begin_,
          .work (.stat true), .work (.branch 0 true), .work (.branch 0 true), .work .proceed,
          .work (.ends true), .work (.branch 0 false), .settle] target ∧
      target.running = none ∧ target.sessions.entries = [([97], 0)] ∧
      target.store 0 = ⟨[98], [98], [98], true, false, false, false⟩ ∧
      ¬ target.Consistent ⟨id, id⟩ := by
  obtain ⟨target, run, view⟩ : ∃ target,
      (managerMachine ⟨id, id⟩).Run (fun _ _ => True) Manager.empty
        [.attachClientSession [97], .opened 0, .call (.moveSession [97] [98]), .begin_,
          .work (.stat true), .work (.branch 0 true), .work (.branch 0 true), .work .proceed,
          .work (.ends true), .work (.branch 0 false), .settle] target ∧
        (target.running, target.sessions.entries, target.store 0) =
          (none, [([97], 0)], ⟨[98], [98], [98], true, false, false, false⟩) :=
    Machine.evaluate_view (by decide +kernel)
  obtain ⟨idle, rest⟩ := Prod.mk.inj view
  obtain ⟨entries, session⟩ := Prod.mk.inj rest
  refine ⟨target, run, idle, entries, session, fun consistent => ?_⟩
  have held : target.sessions.Holds [97] 0 := by
    unfold Table.Holds
    rw [entries]
    exact List.mem_cons_self
  have bound := (consistent.bound [97] 0 held).2.1
  rw [session] at bound
  exact absurd bound (by decide)

end Kb1Daemon
