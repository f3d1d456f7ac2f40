import Kb1Daemon.Manager.Exclusion

/-! # Every session lies under one key

A move takes a session out of the map under its old path and puts it back under its new
one, and an idle close that fails puts its session back. As long as no branch of a folder
move fails while others are pending, the running mutation is the only one that does so,
and it knows under which key its sessions lie (`Manager.Tracks`). Hence no key has two
entries and no session has two keys (`Manager.Keyed`).
-/

namespace Kb1Daemon

open JsString

namespace Manager

/-- Some of the sessions are deleted and some are not. -/
def mixed (manager : Manager) (branches : List Branch) : Bool :=
  (branches.any fun branch => (manager.store branch.session).deleted) &&
    branches.any fun branch => !(manager.store branch.session).deleted

/-- A session of a move fails while another one goes on. -/
def scatters (manager : Manager) : Work → WorkLabel → Bool
  | .preparing branches, .branch index succeeds =>
      match branches[index]? with
      | none => false
      | some branch =>
          manager.failsPreparing branch succeeds &&
            (branches.eraseIdx index).any fun other => other.stage.isPending
  | .preparing branches, .proceed => manager.mixed branches
  | .moving branches true, .ends true => manager.mixed branches
  | .moving branches _, .branch index false =>
      (branches.eraseIdx index).any fun other => other.stage.isPending
  | _, _ => false

/-- The condition of a work step, for the step of the manager. -/
def Guards (condition : Manager → Work → WorkLabel → Bool) (manager : Manager) :
    ManagerLabel → Prop
  | .work label =>
      match manager.running with
      | none => False
      | some work => condition manager work label = true
  | _ => False

instance decidableGuards (condition : Manager → Work → WorkLabel → Bool) (manager : Manager)
    (label : ManagerLabel) : Decidable (manager.Guards condition label) :=
  match label with
  | .work label =>
      decidable_of_iff (manager.running.any (fun work => condition manager work label) = true) (by
        unfold Guards
        cases manager.running <;> simp)
  | .attachClientSession _ | .release _ | .awaitAvailable _ | .withSession _ | .finishOperation _
  | .opened _ | .missing _ | .persisted _ _ | .idleTimer _ | .call _ | .begin_ | .settle
  | .detached _ _ => inferInstanceAs (Decidable False)

/-- A weaker condition guards less. -/
theorem Guards.mono {condition stronger : Manager → Work → WorkLabel → Bool} {manager : Manager}
    {label : ManagerLabel}
    (weaken : ∀ work label, condition manager work label = true →
      stronger manager work label = true) (guarded : manager.Guards condition label) :
    manager.Guards stronger label := by
  cases label with
  | work label =>
      unfold Guards at *
      dsimp only at *
      split at guarded
      · exact guarded.elim
      · exact weaken _ _ guarded
  | _ => exact guarded

end Manager

namespace Manager

/-- What the sessions of a move are to the map: they are different, and the map holds
those on their way under no other path than the one they come from. -/
structure Carries (sessions : Table JsString Nat) (fresh : Nat) (branches : List Branch) :
    Prop where
  distinct : (branches.map Branch.session).Nodup
  known : ∀ branch ∈ branches, branch.session < fresh
  homed : ∀ branch ∈ branches, branch.stage ≠ .done → branch.stage ≠ .failed →
    ∀ vaultPath, sessions.Holds vaultPath branch.session → vaultPath = branch.fromPath

theorem Carries.shrinks {sessions narrow : Table JsString Nat} {fresh : Nat}
    {branches : List Branch} (carries : Carries sessions fresh branches)
    (within : narrow.Within sessions) : Carries narrow fresh branches where
  distinct := carries.distinct
  known := carries.known
  homed branch member busy alive vaultPath held :=
    carries.homed branch member busy alive vaultPath (within.holds held)

end Manager

namespace Work

/-- All sessions of the move have failed. -/
def Dead : Work → Prop
  | .preparing branches | .moving branches _ => ∀ branch ∈ branches, branch.stage = .failed
  | _ => False

/-- What a mutation knows of the keys of its sessions, and how its branches stand. -/
def Tracks (sessions : Table JsString Nat) (fresh : Nat) : Work → Prop
  | .statFile fromPath _ (some session) => session < fresh ∧
      ∀ vaultPath, sessions.Holds vaultPath session → vaultPath = fromPath
  | .preparing branches => Manager.Carries sessions fresh branches ∧ branches ≠ [] ∧
      (∀ branch ∈ branches, branch.stage ≠ .done) ∧
      ((∃ branch ∈ branches, branch.stage = .failed) →
        ∀ branch ∈ branches, branch.stage.isPending = false)
  | .moving branches diskPending => Manager.Carries sessions fresh branches ∧ branches ≠ [] ∧
      (diskPending = true → (∀ branch ∈ branches, branch.stage = .moving) ∨
        ∀ branch ∈ branches, branch.stage = .failed) ∧
      (diskPending = false → ∀ branch ∈ branches, branch.stage = .writing ∨
        branch.stage = .done ∨ branch.stage = .failed) ∧
      ((∃ branch ∈ branches, branch.stage = .failed) →
        ∀ branch ∈ branches, branch.stage.isPending = false)
  | .closing _ session => session < fresh ∧ ∀ path, ¬ sessions.Holds path session
  | _ => True

theorem Tracks.shrinks {sessions narrow : Table JsString Nat} {fresh : Nat} {work : Work}
    (tracks : work.Tracks sessions fresh) (within : narrow.Within sessions) :
    work.Tracks narrow fresh := by
  cases work with
  | statFile fromPath toPath session =>
      cases session with
      | none => trivial
      | some session =>
          exact ⟨tracks.1, fun vaultPath held => tracks.2 vaultPath (within.holds held)⟩
  | preparing branches => exact ⟨tracks.1.shrinks within, tracks.2⟩
  | moving branches diskPending => exact ⟨tracks.1.shrinks within, tracks.2⟩
  | closing vaultPath session =>
      exact ⟨tracks.1, fun path held => tracks.2 path (within.holds held)⟩
  | _ => trivial

/-- A session that is being rewritten takes part in a move whose files have moved. -/
theorem Tracks.landed {sessions : Table JsString Nat} {fresh : Nat} {branches : List Branch}
    {diskPending : Bool} (tracks : (Work.moving branches diskPending).Tracks sessions fresh)
    {branch : Branch} (member : branch ∈ branches) (writing : branch.stage = .writing) :
    diskPending = false := by
  obtain ⟨_, _, waits, _⟩ := tracks
  rw [Bool.eq_false_iff]
  intro pending
  rcases waits pending with moving | failed
  · exact absurd (writing.symm.trans (moving branch member)) nofun
  · exact absurd (writing.symm.trans (failed branch member)) nofun

end Work

namespace Manager

variable {layout : Layout}

/-- **Keys.** No key of the map has two entries and no session has two keys. -/
structure Keyed (manager : Manager) : Prop where
  unique : manager.sessions.Unique
  injective : manager.sessions.Injective
  known : ∀ vaultPath session, manager.sessions.Holds vaultPath session → session < manager.fresh
  tracks : ∀ work ∈ manager.running, work.Tracks manager.sessions manager.fresh
  detached : ∀ work ∈ manager.detached, work.Dead

/-- Entries of the map only disappear. -/
structure Shrinks (manager next : Manager) : Prop where
  sessions : next.sessions.Within manager.sessions
  fresh : next.fresh = manager.fresh

theorem Shrinks.refl (manager : Manager) : manager.Shrinks manager := ⟨.refl _, rfl⟩

theorem Shrinks.trans {first second third : Manager} (before : first.Shrinks second)
    (after : second.Shrinks third) : first.Shrinks third :=
  ⟨after.sessions.trans before.sessions, after.fresh.trans before.fresh⟩

/-- A key that is removed shrinks the map. -/
theorem shrinks_delete (manager : Manager) (vaultPath : JsString) :
    manager.Shrinks { manager with sessions := manager.sessions.delete vaultPath } :=
  ⟨Table.within_delete _ _, rfl⟩

theorem shrinks_scheduleIdleClose (manager : Manager) (vaultPath : JsString) :
    manager.Shrinks (manager.scheduleIdleClose vaultPath) := by
  unfold scheduleIdleClose
  split
  · exact .refl manager
  · split
    · exact .refl manager
    · dsimp only
      split
      · exact ⟨Table.within_delete _ _, rfl⟩
      · exact ⟨.refl _, rfl⟩

theorem shrinks_markDeleted (manager : Manager) (session : Nat) :
    manager.Shrinks (manager.markDeleted session) := by
  unfold markDeleted
  split
  · exact .refl manager
  · exact ⟨Table.within_deleteValue _ _, rfl⟩

theorem shrinks_removeNext (manager : Manager) (diskDeleted subtree : Bool)
    (paths : List JsString) :
    manager.Shrinks (manager.removeNext diskDeleted subtree paths).1 :=
  removeNext_induction .refl (fun manager path _ => (shrinks_delete manager path).trans) manager
    diskDeleted subtree paths

/-- The end of the move on disk leaves the map alone. -/
theorem sessions_transit (manager : Manager) (moved : Bool) (branches : List Branch) :
    (manager.transit layout moved branches).1.sessions = manager.sessions ∧
      (manager.transit layout moved branches).1.fresh = manager.fresh := by
  induction branches generalizing manager with
  | nil => exact ⟨rfl, rfl⟩
  | cons branch branches ih =>
      have first : (manager.transitBranch layout moved branch).1.sessions = manager.sessions ∧
          (manager.transitBranch layout moved branch).1.fresh = manager.fresh := by
        unfold transitBranch
        split
        · split
          · exact ⟨rfl, rfl⟩
          · split <;> exact ⟨rfl, rfl⟩
        · exact ⟨rfl, rfl⟩
      obtain ⟨sessions, fresh⟩ := ih (manager.transitBranch layout moved branch).1
      exact ⟨sessions.trans first.1, fresh.trans first.2⟩

/-- The keys after a step that puts no session into the map. -/
theorem Keyed.shrinks {manager next : Manager} (keyed : manager.Keyed)
    (shrinks : manager.Shrinks next)
    (tracks : ∀ work ∈ next.running, work.Tracks next.sessions manager.fresh)
    (detached : ∀ work ∈ next.detached, work.Dead) : next.Keyed where
  unique := shrinks.sessions.unique keyed.unique
  injective := shrinks.sessions.injective keyed.injective
  known vaultPath session held := by
    rw [shrinks.fresh]
    exact keyed.known vaultPath session (shrinks.sessions.holds held)
  tracks := by
    rw [shrinks.fresh]
    exact tracks
  detached := detached

/-- The keys after a step outside the mutations. -/
theorem Keyed.keeps {manager next : Manager} (keyed : manager.Keyed)
    (shrinks : manager.Shrinks next) (running : next.running = manager.running)
    (detached : next.detached = manager.detached) : next.Keyed := by
  refine keyed.shrinks shrinks ?_ ?_
  · rw [running]
    exact fun work runs => (keyed.tracks work runs).shrinks shrinks.sessions
  · rw [detached]
    exact keyed.detached

theorem mem_setStage_of_mem {branches : List Branch} {index : Nat} {branch other : Branch}
    (found : branches[index]? = some branch) (stage : Stage) (member : other ∈ branches) :
    other = branch ∨ other ∈ setStage branches index branch stage := by
  obtain ⟨place, at_⟩ := List.mem_iff_getElem?.mp member
  by_cases here : index = place
  · subst here
    exact .inl (Option.some.inj (at_.symm.trans found))
  · right
    unfold setStage
    rw [List.mem_iff_getElem?]
    exact ⟨place, by rw [List.getElem?_set_ne here]; exact at_⟩

theorem self_mem_setStage {branches : List Branch} {index : Nat} {branch : Branch}
    (found : branches[index]? = some branch) (stage : Stage) :
    { branch with stage := stage } ∈ setStage branches index branch stage := by
  obtain ⟨below, _⟩ := List.getElem?_eq_some_iff.mp found
  exact List.mem_set below _

theorem sessions_setStage {branches : List Branch} {index : Nat} {branch : Branch}
    (found : branches[index]? = some branch) (stage : Stage) :
    (setStage branches index branch stage).map Branch.session = branches.map Branch.session := by
  obtain ⟨below, rfl⟩ := List.getElem?_eq_some_iff.mp found
  unfold setStage
  rw [List.map_set]
  apply List.ext_getElem (by simp)
  intro place _ _
  rw [List.getElem_set]
  split
  · rename_i here
    subst here
    rw [List.getElem_map]
  · rfl

/-- The other sessions of a move are different from this one. -/
theorem Carries.session_ne {sessions : Table JsString Nat} {fresh : Nat} {branches : List Branch}
    (carries : Carries sessions fresh branches) {index : Nat} {branch other : Branch}
    (found : branches[index]? = some branch) (member : other ∈ branches.eraseIdx index) :
    other.session ≠ branch.session := by
  rw [List.mem_eraseIdx_iff_getElem?] at member
  obtain ⟨place, elsewhere, at_⟩ := member
  intro same
  have first : (branches.map Branch.session)[index]? = some branch.session := by
    rw [List.getElem?_map, found]
    rfl
  have second : (branches.map Branch.session)[place]? = some branch.session := by
    rw [List.getElem?_map, at_, ← same]
    rfl
  obtain ⟨below, _⟩ := List.getElem?_eq_some_iff.mp first
  exact elsewhere ((List.getElem?_inj below carries.distinct).mp (first.trans second.symm)).symm

theorem Carries.setStage {sessions : Table JsString Nat} {fresh : Nat} {branches : List Branch}
    (carries : Carries sessions fresh branches) {index : Nat} {branch : Branch}
    (found : branches[index]? = some branch) (busy : branch.stage ≠ .done)
    (alive : branch.stage ≠ .failed) (stage : Stage) :
    Carries sessions fresh (Manager.setStage branches index branch stage) where
  distinct := by
    rw [sessions_setStage found]
    exact carries.distinct
  known other member := by
    rcases mem_setStage member with old | rfl
    · exact carries.known other (List.mem_of_mem_eraseIdx old)
    · exact carries.known branch (List.mem_of_getElem? found)
  homed other member running lives := by
    rcases mem_setStage member with old | rfl
    · exact carries.homed other (List.mem_of_mem_eraseIdx old) running lives
    · exact carries.homed branch (List.mem_of_getElem? found) busy alive

theorem tracks_preparing {sessions : Table JsString Nat} {fresh : Nat} {branches : List Branch}
    {index : Nat} {branch : Branch} {stage : Stage}
    (tracks : (Work.preparing branches).Tracks sessions fresh)
    (found : branches[index]? = some branch) (pending : branch.stage.isPending = true)
    (goes : stage ≠ .done)
    (ends : stage = .failed → ∀ other ∈ branches.eraseIdx index, other.stage.isPending = false) :
    (Work.preparing (setStage branches index branch stage)).Tracks sessions fresh := by
  obtain ⟨carries, present, before, together⟩ := tracks
  have listed := List.mem_of_getElem? found
  have alive : branch.stage ≠ .failed := by
    intro failed
    rw [failed] at pending
    cases pending
  refine ⟨carries.setStage found (before branch listed) alive stage,
    setStage_ne_nil present index branch stage, ?_, ?_⟩
  · intro other member
    rcases mem_setStage member with old | rfl
    · exact before other (List.mem_of_mem_eraseIdx old)
    · exact goes
  · rintro ⟨other, member, failed⟩
    rcases mem_setStage member with old | rfl
    · have passed := together ⟨other, List.mem_of_mem_eraseIdx old, failed⟩ branch listed
      exact absurd (pending.symm.trans passed) nofun
    · obtain rfl : stage = .failed := failed
      intro last kept
      rcases mem_setStage kept with old | rfl
      · exact ends rfl last old
      · rfl

/-- Either all sessions are deleted or none is. -/
theorem mixed_eq_false {manager : Manager} {branches : List Branch}
    (same : manager.mixed branches = false) :
    (∀ branch ∈ branches, (manager.store branch.session).deleted = false) ∨
      ∀ branch ∈ branches, (manager.store branch.session).deleted = true := by
  unfold mixed at same
  rw [Bool.and_eq_false_iff, List.any_eq_false, List.any_eq_false] at same
  rcases same with live | dead
  · exact .inl fun branch member => by simpa using live branch member
  · exact .inr fun branch member => by simpa using dead branch member

/-- Sessions that have failed do not notice the end of the move on disk. -/
theorem transit_dead (manager : Manager) (moved : Bool) {branches : List Branch}
    (dead : ∀ branch ∈ branches, branch.stage = .failed) :
    manager.transit layout moved branches = (manager, branches) := by
  induction branches with
  | nil => rfl
  | cons branch branches ih =>
      have still : manager.transitBranch layout moved branch = (manager, branch) := by
        unfold transitBranch
        rw [dead branch List.mem_cons_self]
      unfold transit
      rw [still]
      dsimp only
      rw [ih fun other member => dead other (List.mem_cons_of_mem _ member)]

/-- What remains of a move whose sessions have all failed touches no session. -/
theorem dead_works {manager next : Manager} {work nextWork : Work} {label : WorkLabel}
    (dead : work.Dead) (works : manager.Works layout work label next nextWork) :
    next = manager ∧ nextWork.Dead := by
  have at_ : ∀ {branches : List Branch} {index : Nat} {branch : Branch} {stage : Stage},
      (∀ branch ∈ branches, branch.stage = .failed) → branches[index]? = some branch →
        branch.stage = stage → stage = .failed :=
    fun failed found same => same.symm.trans (failed _ (List.mem_of_getElem? found))
  cases works with
  | openFails found opening => exact absurd (at_ dead found opening) nofun
  | stopWatching found opening => exact absurd (at_ dead found opening) nofun
  | flushed found flushing => exact absurd (at_ dead found flushing) nofun
  | flushFails found flushing => exact absurd (at_ dead found flushing) nofun
  | @proceed branches prepared =>
      refine ⟨rfl, fun branch member => ?_⟩
      obtain ⟨old, listed, rfl⟩ := List.mem_map.mp member
      exact absurd ((prepared old listed).symm.trans (dead old listed)) nofun
  | @transit branches moved =>
      rw [transit_dead manager moved dead]
      exact ⟨rfl, dead⟩
  | rekeyed found writing => exact absurd (at_ dead found writing) nofun
  | writeFails found writing => exact absurd (at_ dead found writing) nofun
  | rest quiet =>
      cases work with
      | preparing => cases quiet
      | moving => cases quiet
      | _ => exact dead.elim
  | _ => exact dead.elim

theorem tracks_removeNext (manager : Manager) (sessions : Table JsString Nat) (fresh : Nat)
    (diskDeleted subtree : Bool) (paths : List JsString) :
    (manager.removeNext diskDeleted subtree paths).2.Tracks sessions fresh :=
  @work_removeNext (fun work => work.Tracks sessions fresh) trivial (fun _ => trivial)
    (fun _ _ _ _ _ => trivial) manager diskDeleted subtree paths

/-- The sessions of a folder move. -/
theorem carries_branches {manager : Manager} (keyed : manager.Keyed)
    (fromFolder toFolder : JsString) :
    Carries manager.sessions manager.fresh (manager.branches fromFolder toFolder) := by
  have member : ∀ branch ∈ manager.branches fromFolder toFolder,
      manager.sessions.Holds branch.fromPath branch.session := by
    intro branch listed
    obtain ⟨entry, kept, rfl⟩ := List.mem_map.mp listed
    exact (List.mem_filter.mp kept).1
  refine ⟨?_, ?_, ?_⟩
  · unfold branches
    rw [List.map_map]
    refine List.Nodup.map_on ?_ (List.Nodup.filter _ keyed.unique.of_map)
    intro first listedFirst second listedSecond same
    have holdsFirst := (List.mem_filter.mp listedFirst).1
    have holdsSecond := (List.mem_filter.mp listedSecond).1
    obtain ⟨firstPath, session⟩ := first
    obtain ⟨secondPath, other⟩ := second
    obtain rfl : session = other := same
    exact congrArg (·, session) (keyed.injective firstPath secondPath session holdsFirst
      holdsSecond)
  · exact fun branch listed => keyed.known _ _ (member branch listed)
  · exact fun branch listed _ _ vaultPath held =>
      keyed.injective vaultPath branch.fromPath branch.session held (member branch listed)

/-- The keys after a step of the running mutation that puts no session into the map. -/
theorem Keyed.goesOn {manager next : Manager} {nextWork : Work} (keyed : manager.Keyed)
    (shrinks : manager.Shrinks next) (detached : next.detached = manager.detached)
    (tracks : nextWork.Tracks next.sessions manager.fresh) :
    { next with running := some nextWork }.Keyed := by
  refine keyed.shrinks ⟨shrinks.sessions, shrinks.fresh⟩ ?_ ?_
  · rintro work runs
    obtain rfl := Option.some.inj runs
    exact tracks
  · change ∀ work ∈ next.detached, work.Dead
    rw [detached]
    exact keyed.detached

/-- What the map holds once a session has been put under its new path. -/
theorem holds_moved {sessions : Table JsString Nat} {fromPath toPath : JsString} {session : Nat}
    (homed : ∀ vaultPath, sessions.Holds vaultPath session → vaultPath = fromPath)
    {vaultPath : JsString} {other : Nat}
    (held : ((sessions.delete fromPath).set toPath session).Holds vaultPath other) :
    vaultPath = toPath ∧ other = session ∨
      other ≠ session ∧ sessions.Holds vaultPath other := by
  rcases Table.holds_set.mp held with new | ⟨_, kept⟩
  · exact .inl new
  · obtain ⟨elsewhere, old⟩ := Table.holds_delete.mp kept
    refine .inr ⟨?_, old⟩
    rintro rfl
    exact elsewhere (homed vaultPath old)

/-- A moved session is put under its new path. -/
theorem Keyed.moved {manager target : Manager} (keyed : manager.Keyed)
    {branches : List Branch} {diskPending : Bool} {index : Nat} {branch : Branch}
    (running : manager.running = some (.moving branches diskPending))
    (found : branches[index]? = some branch) (writing : branch.stage = .writing)
    (sessions : target.sessions =
      (manager.sessions.delete branch.fromPath).set branch.toPath branch.session)
    (fresh : target.fresh = manager.fresh) (detached : target.detached = manager.detached)
    (runs : target.running =
      some (.moving (setStage branches index branch .done) diskPending)) : target.Keyed := by
  have tracks := keyed.tracks _ running
  have listed := List.mem_of_getElem? found
  have landed := tracks.landed listed writing
  obtain ⟨carries, present, _, stages, together⟩ := tracks
  have homed : ∀ vaultPath, manager.sessions.Holds vaultPath branch.session →
      vaultPath = branch.fromPath :=
    carries.homed branch listed (by rw [writing]; nofun) (by rw [writing]; nofun)
  refine ⟨?_, ?_, ?_, ?_, ?_⟩
  · rw [sessions]
    exact ((Table.within_delete _ _).unique keyed.unique).set _ _
  · rw [sessions]
    refine ((Table.within_delete _ _).injective keyed.injective).set fun other _ held => ?_
    obtain ⟨elsewhere, old⟩ := Table.holds_delete.mp held
    exact elsewhere (homed other old)
  · rw [sessions, fresh]
    intro vaultPath session held
    rcases holds_moved homed held with ⟨_, rfl⟩ | ⟨_, old⟩
    · exact carries.known branch listed
    · exact keyed.known vaultPath session old
  · rw [runs, sessions, fresh]
    rintro work same
    obtain rfl := Option.some.inj same
    refine ⟨⟨?_, ?_, ?_⟩, setStage_ne_nil present index branch _, ?_, ?_, ?_⟩
    · rw [sessions_setStage found]
      exact carries.distinct
    · intro other member
      rcases mem_setStage member with old | rfl
      · exact carries.known other (List.mem_of_mem_eraseIdx old)
      · exact carries.known branch listed
    · intro other member busy alive vaultPath held
      rcases mem_setStage member with old | rfl
      · rcases holds_moved homed held with ⟨_, same⟩ | ⟨_, before⟩
        · exact absurd same (carries.session_ne found old)
        · exact carries.homed other (List.mem_of_mem_eraseIdx old) busy alive vaultPath before
      · exact absurd rfl busy
    · intro pending
      exact absurd (landed.symm.trans pending) nofun
    · intro _ other member
      rcases mem_setStage member with old | rfl
      · exact stages landed other (List.mem_of_mem_eraseIdx old)
      · exact .inr (.inl rfl)
    · rintro ⟨other, member, failed⟩
      rcases mem_setStage member with old | rfl
      · have passed := together ⟨other, List.mem_of_mem_eraseIdx old, failed⟩ branch listed
        rw [writing] at passed
        cases passed
      · cases failed
  · rw [detached]
    exact keyed.detached

theorem scheduleIdleClose_running (manager : Manager) (vaultPath : JsString)
    (running : Option Work) :
    { manager with running := running }.scheduleIdleClose vaultPath =
      { manager.scheduleIdleClose vaultPath with running := running } := by
  unfold scheduleIdleClose
  dsimp only
  cases manager.sessions.get vaultPath with
  | none => rfl
  | some session =>
      have same : isSessionInUse { manager with running := running } session =
        manager.isSessionInUse session := rfl
      dsimp only
      rw [same]
      split
      · rfl
      · split <;> rfl

theorem Keyed.rekeyed {manager : Manager} (keyed : manager.Keyed)
    {branches : List Branch} {diskPending : Bool} {index : Nat} {branch : Branch}
    (running : manager.running = some (.moving branches diskPending))
    (found : branches[index]? = some branch) (writing : branch.stage = .writing) :
    { (manager.update branch.session Managed.startWatching).rekeySession branch.fromPath
        branch.toPath branch.session with
      running := some (.moving (setStage branches index branch .done) diskPending) }.Keyed := by
  unfold rekeySession
  dsimp only
  split
  · exact keyed.moved running found writing rfl rfl rfl rfl
  · rw [← scheduleIdleClose_running]
    refine Keyed.keeps ?_ (shrinks_scheduleIdleClose _ branch.toPath) ?_ ?_
    · exact keyed.moved running found writing rfl rfl rfl rfl
    · exact congrArg MutationState.running (mutations_scheduleIdleClose _ branch.toPath)
    · exact congrArg MutationState.detached (mutations_scheduleIdleClose _ branch.toPath)

/-- The move on disk has ended. -/
theorem tracks_transit {manager : Manager} {branches : List Branch} {moved : Bool}
    (tracks : (Work.moving branches true).Tracks manager.sessions manager.fresh)
    (allowed : manager.scatters (.moving branches true) (.ends moved) = false) :
    (Work.moving (manager.transit layout moved branches).2 false).Tracks manager.sessions
      manager.fresh := by
  obtain ⟨carries, present, waits, stages, together⟩ := tracks
  rcases waits rfl with waiting | failed
  · rw [transit_branches manager moved waiting]
    have arrives : (∀ branch ∈ branches, manager.arrival moved branch = .writing) ∨
        ∀ branch ∈ branches, manager.arrival moved branch = .failed := by
      cases moved with
      | false =>
          right
          intro branch _
          unfold arrival
          split <;> rfl
      | true =>
          rcases mixed_eq_false allowed with live | dead
          · left
            intro branch member
            unfold arrival
            rw [live branch member]
            rfl
          · right
            intro branch member
            unfold arrival
            rw [dead branch member]
            rfl
    refine ⟨⟨?_, ?_, ?_⟩, fun empty => present (List.map_eq_nil_iff.mp empty), nofun, fun _ => ?_,
      ?_⟩
    · rw [List.map_map]
      exact carries.distinct
    · intro branch member
      obtain ⟨old, listed, rfl⟩ := List.mem_map.mp member
      exact carries.known old listed
    · intro branch member _ _ vaultPath held
      obtain ⟨old, listed, rfl⟩ := List.mem_map.mp member
      have stage := waiting old listed
      exact carries.homed old listed (by rw [stage]; nofun) (by rw [stage]; nofun) vaultPath held
    · intro branch member
      obtain ⟨old, listed, rfl⟩ := List.mem_map.mp member
      rcases arrives with writing | failed
      · exact .inl (writing old listed)
      · exact .inr (.inr (failed old listed))
    · rintro ⟨branch, member, stage⟩ other kept
      obtain ⟨old, listed, rfl⟩ := List.mem_map.mp member
      obtain ⟨before, found, rfl⟩ := List.mem_map.mp kept
      dsimp only at stage ⊢
      rcases arrives with writing | failed
      · rw [writing old listed] at stage
        cases stage
      · rw [failed before found]
        rfl
  · rw [transit_dead manager moved failed]
    exact ⟨carries, present, nofun, fun _ branch member => .inr (.inr (failed branch member)),
      fun lost => together lost⟩

/-- **Steps of a mutation.** Unless it fails in a part while another goes on, a step of the
running mutation keeps every session under one key. -/
theorem Keyed.works {manager next : Manager} (keyed : manager.Keyed) {work nextWork : Work}
    {label : WorkLabel} (running : manager.running = some work)
    (allowed : manager.scatters work label = false)
    (works : manager.Works layout work label next nextWork) :
    { next with running := some nextWork }.Keyed := by
  have tracks := keyed.tracks work running
  have detached : next.detached = manager.detached :=
    congrArg MutationState.detached (mutations_works works)
  cases works with
  | rest quiet passed =>
      refine keyed.goesOn (.refl manager) rfl ?_
      rcases passed with rfl | rfl <;> trivial
  | @prepareFile fromPath toPath session label free =>
      refine keyed.goesOn (.refl manager) rfl ⟨⟨List.nodup_singleton _, ?_, ?_⟩, nofun, ?_, ?_⟩
      · intro branch member
        rw [List.mem_singleton.mp member]
        exact tracks.1
      · intro branch member _ _ vaultPath held
        rw [List.mem_singleton.mp member] at held ⊢
        exact tracks.2 vaultPath held
      · intro branch member
        rw [List.mem_singleton.mp member]
        nofun
      · rintro ⟨branch, member, failed⟩
        rw [List.mem_singleton.mp member] at failed
        cases failed
  | @prepareFolder fromFolder toFolder label present =>
      have opening : ∀ branch ∈ manager.branches fromFolder toFolder, branch.stage = .opening := by
        intro branch member
        obtain ⟨entry, _, rfl⟩ := List.mem_map.mp member
        rfl
      refine keyed.goesOn (.refl manager) rfl
        ⟨carries_branches keyed fromFolder toFolder, present, ?_, ?_⟩
      · intro branch member
        rw [opening branch member]
        nofun
      · rintro ⟨branch, member, failed⟩
        rw [opening branch member] at failed
        cases failed
  | @openFails branches index branch succeeds found opening shut fails =>
      refine keyed.goesOn (.refl manager) rfl
        (tracks_preparing tracks found (by rw [opening]; rfl) nofun fun _ => ?_)
      refine abandons_preparing found ?_ allowed
      unfold failsPreparing
      rw [opening]
      rcases fails with rfl | deleted
      · rfl
      · dsimp only
        rw [deleted, Bool.or_true]
  | @stopWatching branches index branch found opening live opened =>
      exact keyed.goesOn ⟨.refl _, rfl⟩ rfl
        (tracks_preparing tracks found (by rw [opening]; rfl) nofun nofun)
  | @flushed branches index branch found flushing =>
      exact keyed.goesOn (.refl manager) rfl
        (tracks_preparing tracks found (by rw [flushing]; rfl) nofun nofun)
  | @flushFails branches index branch found flushing =>
      refine keyed.goesOn ⟨.refl _, rfl⟩ rfl
        (tracks_preparing tracks found (by rw [flushing]; rfl) nofun fun _ => ?_)
      refine abandons_preparing found ?_ allowed
      unfold failsPreparing
      rw [flushing]
      rfl
  | @proceed branches prepared =>
      obtain ⟨carries, present, _, _⟩ := tracks
      have together := mixed_eq_false allowed
      refine keyed.goesOn (.refl manager) rfl ⟨⟨?_, ?_, ?_⟩,
        fun empty => present (List.map_eq_nil_iff.mp empty), fun _ => ?_, nofun, ?_⟩
      · rw [List.map_map]
        exact carries.distinct
      · intro branch member
        obtain ⟨old, listed, rfl⟩ := List.mem_map.mp member
        exact carries.known old listed
      · intro branch member _ _ vaultPath held
        obtain ⟨old, listed, rfl⟩ := List.mem_map.mp member
        have stage := prepared old listed
        exact carries.homed old listed (by rw [stage]; nofun) (by rw [stage]; nofun) vaultPath held
      · rcases together with live | dead
        · left
          intro branch member
          obtain ⟨old, listed, rfl⟩ := List.mem_map.mp member
          exact if_neg (Bool.eq_false_iff.mp (live old listed))
        · right
          intro branch member
          obtain ⟨old, listed, rfl⟩ := List.mem_map.mp member
          exact if_pos (dead old listed)
      · rintro ⟨branch, member, failed⟩ other listed
        obtain ⟨old, kept, rfl⟩ := List.mem_map.mp member
        obtain ⟨before, found, rfl⟩ := List.mem_map.mp listed
        dsimp only at failed ⊢
        rcases together with live | dead
        · rw [if_neg (Bool.eq_false_iff.mp (live old kept))] at failed
          cases failed
        · rw [if_pos (dead before found)]
          rfl
  | @transit branches moved =>
      obtain ⟨sessions, fresh⟩ := @sessions_transit layout manager moved branches
      have shrinks : manager.Shrinks (manager.transit layout moved branches).1 :=
        ⟨by rw [sessions]; exact .refl _, fresh⟩
      refine keyed.goesOn shrinks detached ?_
      rw [sessions]
      exact tracks_transit tracks allowed
  | @rekeyed branches diskPending index branch found writing =>
      exact keyed.rekeyed running found writing
  | @writeFails branches diskPending index branch found writing =>
      have listed := List.mem_of_getElem? found
      have landed := tracks.landed listed writing
      subst landed
      obtain ⟨carries, present, _, stages, _⟩ := tracks
      simp only [scatters] at allowed
      rw [List.any_eq_false] at allowed
      refine keyed.goesOn (.refl manager) rfl ⟨carries.setStage found (by rw [writing]; nofun)
        (by rw [writing]; nofun) .failed, setStage_ne_nil present index branch _, nofun, ?_, ?_⟩
      · intro _ other member
        rcases mem_setStage member with old | rfl
        · exact stages rfl other (List.mem_of_mem_eraseIdx old)
        · exact .inr (.inr rfl)
      · intro _ other member
        rcases mem_setStage member with old | rfl
        · exact Bool.eq_false_iff.mpr (allowed other old)
        · rfl
  | removeStops opening => exact keyed.goesOn ⟨.refl _, rfl⟩ rfl trivial
  | removeGoesOn goes going => exact keyed.goesOn (.refl manager) rfl trivial
  | removeFails => exact keyed.goesOn ⟨.refl _, rfl⟩ rfl trivial
  | @removed removal paths diskDeleted subtree label =>
      exact keyed.goesOn ((shrinks_markDeleted manager removal.session).trans
        ((shrinks_delete _ removal.path).trans (shrinks_removeNext _ diskDeleted subtree paths)))
        detached (tracks_removeNext ..)
  | @removedBare paths label =>
      exact keyed.goesOn (shrinks_removeNext manager true true paths) detached
        (tracks_removeNext ..)
  | closed sound => exact keyed.goesOn ⟨.refl _, rfl⟩ rfl trivial
  | @closeFails vaultPath session failed =>
      obtain ⟨known, absent⟩ := tracks
      refine ⟨keyed.unique.set _ _, keyed.injective.set fun other _ => absent other, ?_, ?_,
        keyed.detached⟩
      · intro path other held
        rcases Table.holds_set.mp held with ⟨_, rfl⟩ | ⟨_, old⟩
        · exact known
        · exact keyed.known path other old
      · rintro work runs
        obtain rfl := Option.some.inj runs
        trivial

/-- When the promise of a mutation is settled, what it leaves running touches no session. -/
theorem tracks_settled {sessions : Table JsString Nat} {fresh : Nat} {work : Work}
    (tracks : work.Tracks sessions fresh) (settled : work.isSettled = true)
    (unfinished : work.isFinished = false) : work.Dead := by
  cases work with
  | preparing branches =>
      obtain ⟨_, _, _, together⟩ := tracks
      have passed := together (Work.isSettled_preparing.mp settled)
      exact absurd (Work.isFinished_preparing.mpr passed) (Bool.eq_false_iff.mp unfinished)
  | moving branches diskPending =>
      obtain ⟨_, present, waits, _, together⟩ := tracks
      have passed : ∀ branch ∈ branches, branch.stage.isPending = false := by
        rcases Work.isSettled_moving.mp settled with failed | done
        · exact together failed
        · intro branch member
          rw [done branch member]
          rfl
      cases diskPending with
      | false =>
          exact absurd (Work.isFinished_moving.mpr ⟨rfl, passed⟩) (Bool.eq_false_iff.mp unfinished)
      | true =>
          rcases waits rfl with moving | failed
          · obtain ⟨branch, member⟩ := List.exists_mem_of_ne_nil _ present
            have stage := passed branch member
            rw [moving branch member] at stage
            cases stage
          · exact failed
  | settled => cases unfinished
  | _ => cases settled

/-- A session that is new to the map does not take part in the running mutation. -/
theorem tracks_created {sessions : Table JsString Nat} {fresh : Nat} {work : Work}
    (tracks : work.Tracks sessions fresh) (vaultPath : JsString) :
    work.Tracks (sessions.set vaultPath fresh) (fresh + 1) := by
  have older : ∀ {path session}, session < fresh →
      (sessions.set vaultPath fresh).Holds path session → sessions.Holds path session := by
    intro path session below held
    rcases Table.holds_set.mp held with ⟨_, rfl⟩ | ⟨_, old⟩
    · exact absurd below (Nat.lt_irrefl _)
    · exact old
  have carries : ∀ {branches}, Carries sessions fresh branches →
      Carries (sessions.set vaultPath fresh) (fresh + 1) branches := fun before =>
    { distinct := before.distinct
      known := fun branch member => Nat.lt_succ_of_lt (before.known branch member)
      homed := fun branch member busy alive path held => before.homed branch member busy alive path
        (older (before.known branch member) held) }
  cases work with
  | statFile fromPath toPath session =>
      cases session with
      | none => trivial
      | some session =>
          exact ⟨Nat.lt_succ_of_lt tracks.1, fun path held => tracks.2 path (older tracks.1 held)⟩
  | preparing branches => exact ⟨carries tracks.1, tracks.2⟩
  | moving branches diskPending => exact ⟨carries tracks.1, tracks.2⟩
  | closing path session =>
      exact ⟨Nat.lt_succ_of_lt tracks.1, fun other held => tracks.2 other (older tracks.1 held)⟩
  | _ => trivial

theorem Keyed.created {manager : Manager} (keyed : manager.Keyed) (vaultPath : JsString)
    (managed : Managed) :
    { manager with
      sessions := manager.sessions.set vaultPath manager.fresh
      store := Function.update manager.store manager.fresh managed
      fresh := manager.fresh + 1 }.Keyed where
  unique := keyed.unique.set _ _
  injective := keyed.injective.set fun other _ held =>
    absurd (keyed.known other manager.fresh held) (Nat.lt_irrefl _)
  known path session held := by
    rcases Table.holds_set.mp held with ⟨_, rfl⟩ | ⟨_, old⟩
    · exact Nat.lt_succ_self _
    · exact Nat.lt_succ_of_lt (keyed.known path session old)
  tracks work runs := tracks_created (keyed.tracks work runs) vaultPath
  detached := keyed.detached

theorem Keyed.getSession {manager : Manager} (keyed : manager.Keyed) (vaultPath : JsString) :
    (manager.getSession layout vaultPath).1.Keyed := by
  have cancelled : (manager.cancelIdleClose vaultPath).Keyed :=
    keyed.keeps ⟨.refl _, rfl⟩ rfl rfl
  unfold Manager.getSession
  dsimp only
  split
  · exact cancelled
  · exact cancelled.created vaultPath _

/-- The first mutation begins. -/
theorem Keyed.begins {manager : Manager} (keyed : manager.Keyed) (mutation : Mutation) :
    { (manager.begin_ mutation).1 with
      running := some (manager.begin_ mutation).2 }.Keyed := by
  have detached := congrArg MutationState.detached (mutations_begin manager mutation)
  cases mutation with
  | moveSession fromPath toPath =>
      refine keyed.goesOn (.refl manager) rfl ?_
      change (Work.statFile fromPath toPath (manager.sessions.get fromPath)).Tracks _ _
      cases found : manager.sessions.get fromPath with
      | none => trivial
      | some session =>
          have held := Table.holds_of_get found
          exact ⟨keyed.known fromPath session held, fun vaultPath other =>
            keyed.injective vaultPath fromPath session other held⟩
  | moveSessionSubtree fromFolder toFolder => exact keyed.goesOn (.refl manager) rfl trivial
  | deleteSession path =>
      exact keyed.goesOn (shrinks_removeNext manager false false [path]) detached
        (tracks_removeNext ..)
  | deleteSessionSubtree folderPath =>
      exact keyed.goesOn (shrinks_removeNext manager false true _) detached (tracks_removeNext ..)
  | withStablePath vaultPath => exact keyed.goesOn (.refl manager) rfl trivial
  | closeSession vaultPath =>
      dsimp only [begin_]
      unfold closeSessionUnlocked
      dsimp only
      split
      · exact keyed.goesOn ⟨.refl _, rfl⟩ rfl trivial
      · rename_i session found
        have held : manager.sessions.Holds vaultPath session := Table.holds_of_get found
        split
        · exact keyed.goesOn ⟨.refl _, rfl⟩ rfl trivial
        · split
          · exact keyed.goesOn ⟨.refl _, rfl⟩ rfl trivial
          · refine keyed.goesOn ⟨Table.within_delete _ _, rfl⟩ rfl
              ⟨keyed.known vaultPath session held, fun path other => ?_⟩
            obtain ⟨elsewhere, before⟩ := Table.holds_delete.mp other
            exact elsewhere (keyed.injective path vaultPath session before held)

/-- What a release leaves of the map. -/
theorem shrinks_release {manager next : Manager} {index : Nat}
    (released : manager.release index = some next) : manager.Shrinks next := by
  unfold release at released
  split at released
  · cases released
  · split at released
    · cases released
      exact .refl manager
    · dsimp only at released
      split at released
      · cases released
        exact ⟨.refl _, rfl⟩
      · split at released
        · cases released
          exact ⟨.refl _, rfl⟩
        · obtain rfl := Option.some.inj released
          refine Shrinks.trans ?_ (shrinks_scheduleIdleClose _ _)
          exact ⟨.refl _, rfl⟩

theorem shrinks_finishOperation {manager next : Manager} {index : Nat}
    (finished : manager.finishOperation index = some next) : manager.Shrinks next := by
  unfold finishOperation at finished
  split at finished
  · cases finished
  · split at finished
    · cases finished
    · dsimp only at finished
      split at finished
      · cases finished
        exact ⟨.refl _, rfl⟩
      · obtain rfl := Option.some.inj finished
        refine Shrinks.trans ?_ (shrinks_scheduleIdleClose _ _)
        exact ⟨.refl _, rfl⟩

/-- **Steps.** Unless a session of a move fails while another one goes on, every step of
the manager keeps every session under one key. -/
theorem Keyed.step {manager next : Manager} {label : ManagerLabel} (keyed : manager.Keyed)
    (allowed : ¬ manager.Guards scatters label)
    (stepped : (managerMachine layout).step manager label = some next) : next.Keyed := by
  cases label with
  | attachClientSession vaultPath =>
      dsimp only [managerMachine] at stepped
      unfold attachClientSession at stepped
      split at stepped
      · cases stepped
      · obtain rfl := Option.some.inj stepped
        exact (keyed.getSession vaultPath).keeps ⟨.refl _, rfl⟩ rfl rfl
  | release index =>
      have same := mutations_release stepped
      exact keyed.keeps (shrinks_release stepped) (congrArg MutationState.running same)
        (congrArg MutationState.detached same)
  | awaitAvailable vaultPath =>
      dsimp only [managerMachine] at stepped
      split at stepped
      · cases stepped
      · cases stepped
        exact keyed.keeps ⟨.refl _, rfl⟩ rfl rfl
  | withSession vaultPath =>
      dsimp only [managerMachine] at stepped
      unfold withSession at stepped
      split at stepped
      · dsimp only at stepped
        split at stepped
        · cases stepped
          exact keyed.keeps ⟨.refl _, rfl⟩ rfl rfl
        · obtain rfl := Option.some.inj stepped
          have resumed : Manager.Keyed ({ manager with
              available := manager.available.erase vaultPath }.cancelIdleClose vaultPath) :=
            keyed.keeps ⟨.refl _, rfl⟩ rfl rfl
          exact (resumed.getSession vaultPath).keeps ⟨.refl _, rfl⟩ rfl rfl
      · cases stepped
  | finishOperation index =>
      have same := mutations_finishOperation stepped
      exact keyed.keeps (shrinks_finishOperation stepped) (congrArg MutationState.running same)
        (congrArg MutationState.detached same)
  | opened session =>
      dsimp only [managerMachine] at stepped
      split at stepped
      · cases stepped
        exact keyed.keeps ⟨.refl _, rfl⟩ rfl rfl
      · cases stepped
  | missing session =>
      dsimp only [managerMachine] at stepped
      split at stepped
      · cases stepped
        have same := mutations_markDeleted manager session
        exact keyed.keeps (shrinks_markDeleted manager session)
          (congrArg MutationState.running same) (congrArg MutationState.detached same)
      · cases stepped
  | persisted session failed =>
      dsimp only [managerMachine] at stepped
      split at stepped
      · cases stepped
        exact keyed.keeps ⟨.refl _, rfl⟩ rfl rfl
      · cases stepped
  | idleTimer vaultPath =>
      dsimp only [managerMachine] at stepped
      split at stepped
      · cases stepped
        exact keyed.keeps ⟨.refl _, rfl⟩ rfl rfl
      · cases stepped
  | call mutation =>
      dsimp only [managerMachine] at stepped
      split at stepped
      · cases stepped
      · cases stepped
        exact keyed.keeps ⟨.refl _, rfl⟩ rfl rfl
  | begin_ =>
      dsimp only [managerMachine] at stepped
      split at stepped
      · rename_i call queue idle waiting
        obtain rfl := Option.some.inj stepped
        exact keyed.begins call.mutation
      · cases stepped
  | work label =>
      dsimp only [managerMachine] at stepped
      split at stepped
      · cases stepped
      · rename_i work running
        obtain ⟨⟨result, nextWork⟩, moved, rfl⟩ := Option.map_eq_some_iff.mp stepped
        refine keyed.works running ?_ (works_of_workStep moved)
        simp only [Guards] at allowed
        rw [running] at allowed
        exact Bool.eq_false_iff.mpr allowed
  | settle =>
      dsimp only [managerMachine] at stepped
      split at stepped
      · rename_i work call queue running waiting
        split at stepped
        · rename_i settled
          obtain rfl := Option.some.inj stepped
          refine keyed.shrinks ⟨.refl _, rfl⟩ ?_ fun other member => ?_
          · intro other started
            cases started
          dsimp only at member
          split at member
          · exact keyed.detached other member
          · rename_i unfinished
            rcases List.mem_append.mp member with old | new
            · exact keyed.detached other old
            · rw [List.mem_singleton.mp new]
              exact tracks_settled (keyed.tracks work running) settled
                (Bool.eq_false_iff.mpr unfinished)
        · cases stepped
      · cases stepped
  | detached index label =>
      dsimp only [managerMachine] at stepped
      split at stepped
      · cases stepped
      · rename_i work found
        obtain ⟨⟨result, nextWork⟩, moved, rfl⟩ := Option.map_eq_some_iff.mp stepped
        have dead := keyed.detached work (List.mem_of_getElem? found)
        obtain ⟨rfl, still⟩ := dead_works dead (works_of_workStep moved)
        refine keyed.shrinks ⟨.refl _, rfl⟩ keyed.tracks fun other member => ?_
        rcases List.mem_or_eq_of_mem_set member with old | rfl
        · exact keyed.detached other old
        · exact still

theorem keyed_empty : Manager.empty.Keyed :=
  ⟨Table.unique_empty, nofun, nofun, nofun, nofun⟩

end Manager

end Kb1Daemon
