import Mathlib.Data.List.Perm.Subperm
import Kb1Daemon.Registry.Entry
import Kb1Daemon.Registry.Live

/-! # Soft deletes that fail

A soft delete ends the subscription of the vault and closes its manager before it moves the
folder. A manager whose sessions cannot be closed goes back to work; nothing else is undone. So
after a soft delete that was rejected the vault works exactly when the sessions could not be
closed and nobody was listening (`softDelete_leaves_working_iff`).
-/

namespace Kb1Daemon

open JsString

/-- A session of a manager; an attached session follows its document and its file. -/
structure ManagedSession where
  opened : Bool
  deleted : Bool
  attached : Bool
  deriving DecidableEq, Repr

/-- Whether the manager's close promise is absent, pending or resolved. -/
inductive ManagerStage where
  | active
  | closing
  | closed
  deriving DecidableEq, Repr

structure VaultManager where
  stage : ManagerStage
  sessions : List (JsString × ManagedSession)
  deriving DecidableEq, Repr

namespace VaultManager

/-- `assertActive`: what sessions and structure mutations need. -/
def isActive (manager : VaultManager) : Bool := manager.stage = .active

def resumeAfterCloseFailure (session : ManagedSession) : ManagedSession :=
  if !session.opened || session.deleted then session else { session with attached := true }

/-- `close`, where flushing some sessions fails: whether it succeeds, and the manager. -/
def close (manager : VaultManager) (fails : JsString → Bool) : Bool × VaultManager :=
  match manager.stage with
  | .closed => (true, manager)
  | _ =>
      let left := manager.sessions.map fun (path, session) =>
        (path, if fails path then session else { session with attached := false })
      if left.any fun (path, _) => fails path then
        (false, ⟨.active, left.map fun (path, session) => (path, resumeAfterCloseFailure session)⟩)
      else (true, ⟨.closed, []⟩)

/-- Closing fails. -/
def CloseFails (manager : VaultManager) (fails : JsString → Bool) : Prop :=
  manager.stage ≠ .closed ∧ ∃ entry ∈ manager.sessions, fails entry.1 = true

instance (manager : VaultManager) (fails : JsString → Bool) :
    Decidable (manager.CloseFails fails) :=
  inferInstanceAs (Decidable (_ ∧ _))

variable {manager : VaultManager} {fails : JsString → Bool}

/-- **Closing a manager.** It fails exactly when a session cannot be flushed, and then the
manager is active with its open sessions attached; else the manager is closed. -/
theorem close_spec :
    (manager.CloseFails fails ∧ (manager.close fails).1 = false ∧
        (manager.close fails).2.isActive = true ∧
        ∀ entry ∈ (manager.close fails).2.sessions,
          entry.2.opened = true → entry.2.deleted = false → entry.2.attached = true) ∨
      ¬ manager.CloseFails fails ∧ (manager.close fails).1 = true ∧
        (manager.close fails).2.stage = .closed := by
  unfold close
  split
  · rename_i closed
    exact .inr ⟨fun failing => failing.1 closed, rfl, closed⟩
  · rename_i open_
    dsimp only
    split
    · rename_i failing
      obtain ⟨⟨path, session⟩, listed, unflushed⟩ := List.any_eq_true.mp failing
      obtain ⟨⟨_, source⟩, member, same⟩ := List.mem_map.mp listed
      obtain ⟨rfl, _⟩ := Prod.mk.inj same
      refine .inl ⟨⟨open_, _, member, unflushed⟩, rfl, rfl, ?_⟩
      intro entry resumed opened live
      obtain ⟨⟨_, kept⟩, _, rfl⟩ := List.mem_map.mp resumed
      revert opened live
      cases kept with
      | mk wasOpened wasDeleted wasAttached =>
          cases wasOpened
          · nofun
          · cases wasDeleted
            · exact fun _ _ => rfl
            · nofun
    · rename_i flushed
      refine .inr ⟨?_, rfl, rfl⟩
      rintro ⟨_, ⟨path, session⟩, member, unflushed⟩
      exact flushed (List.any_eq_true.mpr ⟨_, List.mem_map_of_mem member, unflushed⟩)

end VaultManager

/-- The destination with a suffix. -/
def trashCandidate (base : JsString) (suffix : Nat) : JsString :=
  if suffix = 0 then base else base ++ units "-" ++ decimal suffix

theorem trashCandidate_injective (base : JsString) : Function.Injective (trashCandidate base) := by
  intro left right same
  unfold trashCandidate at same
  split_ifs at same with first second second
  · rw [first, second]
  · have longer := congrArg List.length same
    simp [units] at longer
  · have longer := congrArg List.length same
    simp [units] at longer
  · exact decimal_injective (List.append_cancel_left same)

/-- The loop of `uniqueTrashDestination`; looking at a candidate may fail. -/
def firstFree (trash : List JsString) (statFails : JsString → Bool) (base : JsString) :
    Nat → Nat → Option JsString
  | 0, _ => none
  | fuel + 1, suffix =>
      if statFails (trashCandidate base suffix) then none
      else if trashCandidate base suffix ∈ trash then
        firstFree trash statFails base fuel (suffix + 1)
      else some (trashCandidate base suffix)

/-- Among as many candidates as there are names in the trash and one, one is free. -/
def uniqueTrashDestination (trash : List JsString) (statFails : JsString → Bool)
    (base : JsString) : Option JsString :=
  firstFree trash statFails base (trash.length + 1) 0

section Destination

variable {trash : List JsString} {statFails : JsString → Bool} {base : JsString}

theorem firstFree_not_mem {fuel suffix : Nat} {destination : JsString}
    (found : firstFree trash statFails base fuel suffix = some destination) :
    destination ∉ trash := by
  induction fuel generalizing suffix with
  | zero => cases found
  | succ fuel ih =>
      rw [firstFree] at found
      split_ifs at found with failed taken
      · exact ih found
      · obtain rfl := Option.some.inj found
        exact taken

/-- Without a failure, all candidates that were looked at are taken. -/
theorem taken_of_firstFree_eq_none (fine : ∀ candidate, statFails candidate = false)
    {fuel suffix : Nat} (none : firstFree trash statFails base fuel suffix = none) :
    ∀ offset < fuel, trashCandidate base (suffix + offset) ∈ trash := by
  induction fuel generalizing suffix with
  | zero => exact fun offset early => absurd early (Nat.not_lt_zero _)
  | succ fuel ih =>
      rw [firstFree, fine, if_neg Bool.false_ne_true] at none
      split_ifs at none with taken
      intro offset early
      cases offset with
      | zero => exact taken
      | succ offset =>
          have rest := ih none offset (by omega)
          rwa [Nat.add_assoc, Nat.add_comm 1] at rest

/-- **The destination.** It is a new name, and there is one unless looking for it fails. -/
theorem uniqueTrashDestination_spec :
    (∀ destination, uniqueTrashDestination trash statFails base = some destination →
      destination ∉ trash) ∧
      ((∀ candidate, statFails candidate = false) →
        (uniqueTrashDestination trash statFails base).isSome) := by
  refine ⟨fun destination found => firstFree_not_mem found, fun fine => ?_⟩
  by_contra absent
  have taken := taken_of_firstFree_eq_none fine (Option.not_isSome_iff_eq_none.mp absent)
  have names : ((List.range (trash.length + 1)).map (trashCandidate base)).Nodup :=
    List.nodup_range.map (trashCandidate_injective base)
  have inside : (List.range (trash.length + 1)).map (trashCandidate base) ⊆ trash := by
    intro name listed
    obtain ⟨offset, early, rfl⟩ := List.mem_map.mp listed
    have member := taken offset (List.mem_range.mp early)
    rwa [Nat.zero_add] at member
  have fewer := (names.subperm inside).length_le
  rw [List.length_map, List.length_range] at fewer
  omega

end Destination

/-- The registry with the managers of its instances, and the folders of the vaults and of the
trash. -/
structure DaemonVaults where
  registry : LiveRegistry
  managers : Nat → VaultManager
  folders : List JsString
  trashHome : JsString
  trash : List JsString

/-- What fails: flushing the session of a path, making the trash folder, looking at a candidate,
moving the folder. -/
structure DeleteFaults where
  flush : JsString → Bool
  makeTrash : Bool
  stat : JsString → Bool
  renameRoot : Bool

inductive DeleteStep where
  | closeManager
  | makeTrash
  | chooseDestination
  | renameRoot
  deriving DecidableEq, Repr

inductive DeleteOutcome where
  | refused (error : VaultRegistryError)
  | trashed (trashedTo : JsString)
  | rejected (step : DeleteStep)
  deriving DecidableEq, Repr

namespace DaemonVaults

def softDelete (state : DaemonVaults) (id : JsString) (faults : DeleteFaults) :
    DeleteOutcome × DaemonVaults :=
  match state.registry.instances.get id with
  | none => (.refused (unknownVault id), state)
  | some vault =>
      let closing := (state.managers vault.number).close faults.flush
      let left := { state with
        registry := state.registry.unsubscribeInstance id
        managers := Function.update state.managers vault.number closing.2 }
      if !closing.1 then (.rejected .closeManager, left)
      else if faults.makeTrash then (.rejected .makeTrash, left)
      else
        match uniqueTrashDestination state.trash faults.stat
            (Segments.child slash state.trashHome id) with
        | none => (.rejected .chooseDestination, left)
        | some destination =>
            if faults.renameRoot || vault.root ∉ state.folders then (.rejected .renameRoot, left)
            else (.trashed destination, { left with
              registry := { left.registry with instances := left.registry.instances.delete id }
              folders := state.folders.filter (· ≠ vault.root)
              trash := destination :: state.trash })

/-- The vault is registered, its folder is at its root, its manager accepts sessions and
structure mutations, and its events reach every handler. -/
structure Working (state : DaemonVaults) (id : JsString) (vault : VaultInstance) : Prop where
  registered : state.registry.instances.get id = some vault
  folder : vault.root ∈ state.folders
  active : (state.managers vault.number).isActive = true
  heard : ∀ handler ∈ state.registry.eventHandlers, handler ∈ state.registry.receivers vault

variable {state next : DaemonVaults} {id : JsString} {faults : DeleteFaults} {step : DeleteStep}
  {vault : VaultInstance}

/-- A rejected soft delete has ended the subscription and has tried to close the manager. -/
theorem softDelete_rejected (found : state.registry.instances.get id = some vault)
    (rejected : state.softDelete id faults = (.rejected step, next)) :
    next = { state with
      registry := state.registry.unsubscribeInstance id
      managers := Function.update state.managers vault.number
        ((state.managers vault.number).close faults.flush).2 } := by
  unfold softDelete at rejected
  rw [found] at rejected
  dsimp only at rejected
  split at rejected
  · exact (Prod.mk.inj rejected).2.symm
  · split at rejected
    · exact (Prod.mk.inj rejected).2.symm
    · split at rejected
      · exact (Prod.mk.inj rejected).2.symm
      · split at rejected
        · exact (Prod.mk.inj rejected).2.symm
        · cases (Prod.mk.inj rejected).1

/-- **Names in the trash.** A soft delete keeps them apart, and it finds a new one for its vault
unless looking at a candidate fails. -/
theorem softDelete_names (apart : state.trash.Nodup) :
    (state.softDelete id faults).2.trash.Nodup ∧
      ((∀ candidate, faults.stat candidate = false) →
        (state.softDelete id faults).1 ≠ .rejected .chooseDestination) := by
  unfold softDelete
  split
  · exact ⟨apart, nofun⟩
  · rename_i vault _
    dsimp only
    obtain ⟨fresh, ended⟩ := @uniqueTrashDestination_spec state.trash faults.stat
      (Segments.child slash state.trashHome id)
    split
    · exact ⟨apart, nofun⟩
    · split
      · exact ⟨apart, nofun⟩
      · split
        · rename_i none
          rw [none] at ended
          exact ⟨apart, fun fine => absurd (ended fine) Bool.false_ne_true⟩
        · rename_i destination found
          split
          · exact ⟨apart, nofun⟩
          · exact ⟨List.nodup_cons.mpr ⟨fresh destination found, apart⟩, nofun⟩

/-- **Soft deletes that fail.** After a soft delete was rejected, the vault works if and only if
its sessions could not be closed, its folder was there and there was no event handler. -/
theorem softDelete_leaves_working_iff (found : state.registry.instances.get id = some vault)
    (rejected : state.softDelete id faults = (.rejected step, next)) :
    next.Working id vault ↔
      (state.managers vault.number).CloseFails faults.flush ∧ vault.root ∈ state.folders ∧
        state.registry.eventHandlers = [] := by
  obtain ⟨_, own⟩ := InstanceMap.get_eq_some_iff.mp found
  obtain rfl := softDelete_rejected found rejected
  have silent : ∀ handler, handler ∉ (state.registry.unsubscribeInstance id).receivers vault := by
    intro handler received
    exact (InstanceMap.mem_delete.mp (LiveRegistry.mem_receivers.mp received).1).1 own
  constructor
  · rintro ⟨_, folder, active, heard⟩
    refine ⟨?_, folder, ?_⟩
    · rcases @VaultManager.close_spec (state.managers vault.number) faults.flush
        with ⟨failing, _⟩ | ⟨_, _, closed⟩
      · exact failing
      · dsimp only at active
        rw [Function.update_self, VaultManager.isActive, closed] at active
        cases active
    · exact List.eq_nil_iff_forall_not_mem.mpr fun handler member => silent handler (heard handler member)
  · rintro ⟨failing, folder, none⟩
    refine ⟨found, folder, ?_, ?_⟩
    · rcases @VaultManager.close_spec (state.managers vault.number) faults.flush
        with ⟨_, _, active, _⟩ | ⟨fine, _⟩
      · dsimp only
        rwa [Function.update_self]
      · exact absurd failing fine
    · intro handler member
      rw [show (state.registry.unsubscribeInstance id).eventHandlers = [] from none] at member
      cases member

/-- The instance of a vault of notes. -/
def notesInstance : VaultInstance := ⟨0, units "notes", units "/kb/vaults/notes"⟩

/-- The vault of notes with an open session, heard by some handlers. -/
def notesVaults (handlers : List Nat) : DaemonVaults where
  registry := (LiveRegistry.mk (InstanceMap.empty.set notesInstance) handlers .empty).subscribeInstance
    notesInstance
  managers _ := ⟨.active, [(units "a.md", ⟨true, false, true⟩)]⟩
  folders := [notesInstance.root]
  trashHome := units "/kb/.trash"
  trash := []

/-- Flushing every session fails. -/
def unflushed : DeleteFaults := ⟨fun _ => true, false, fun _ => false, false⟩

/-- Moving the folder fails. -/
def unmoved : DeleteFaults := ⟨fun _ => false, false, fun _ => false, true⟩

/-- Nobody listens to the vault and its session cannot be closed: it goes on working. -/
theorem softDelete_leaves_working_unheard :
    ∃ next, (notesVaults []).softDelete (units "notes") unflushed = (.rejected .closeManager, next) ∧
      next.Working (units "notes") notesInstance := by
  have found : (notesVaults []).registry.instances.get (units "notes") = some notesInstance := rfl
  have rejected : (notesVaults []).softDelete (units "notes") unflushed = (.rejected .closeManager,
      ((notesVaults []).softDelete (units "notes") unflushed).2) := rfl
  refine ⟨_, rejected, (softDelete_leaves_working_iff found rejected).mpr ⟨?_, ?_, rfl⟩⟩
  · decide
  · exact List.mem_cons_self

/-- When somebody listens, a vault whose session cannot be closed is no longer heard; and a vault
whose folder cannot be moved has a closed manager. -/
theorem softDelete_leaves_not_working :
    (((notesVaults [0]).softDelete (units "notes") unflushed).1 = .rejected .closeManager ∧
      (notesVaults [0]).Working (units "notes") notesInstance ∧
      ¬ ((notesVaults [0]).softDelete (units "notes") unflushed).2.Working (units "notes")
        notesInstance) ∧
    ((notesVaults []).softDelete (units "notes") unmoved).1 = .rejected .renameRoot ∧
      (notesVaults []).Working (units "notes") notesInstance ∧
      ¬ ((notesVaults []).softDelete (units "notes") unmoved).2.Working (units "notes")
        notesInstance := by
  refine ⟨⟨rfl, ⟨rfl, List.mem_cons_self, rfl, by decide⟩, fun working => ?_⟩,
    rfl, ⟨rfl, List.mem_cons_self, rfl, nofun⟩, fun working => ?_⟩
  · exact absurd (working.heard 0 List.mem_cons_self) (by decide)
  · exact absurd working.active (by decide)

end DaemonVaults

end Kb1Daemon
