import Kb1Daemon.Foundation.Machine
import Kb1Daemon.Registry.Entry

/-! # Updates of a vault's identity

Renaming a vault and setting its metadata build the whole identity from the entry in memory,
write it, and then change the entry; soft-deleting it moves its folder away and then drops the
entry. Every await is a point where the other calls may go on. When no update overlaps another
call, the identity on disk is that of the entry whenever all calls have returned, and a vault
that was soft-deleted leaves no folder (`identity_matches_registry`).
-/

namespace Kb1Daemon

open JsString

/-- The calls on one vault. -/
inductive VaultOperation where
  | rename (displayName : JsString)
  | setMetadata (input : ColorInput)
  | softDelete
  deriving DecidableEq, Repr

/-- What an update changes of the entry when its identity is written. -/
inductive EntryChange where
  | displayName (displayName : JsString)
  | metadata (metadata : Option VaultMetadata)
  deriving DecidableEq, Repr

def EntryChange.apply (entry : VaultRegistryEntry) : EntryChange → VaultRegistryEntry
  | .displayName name => { entry with displayName := name }
  | .metadata stored => { entry with metadata := stored }

/-- Where a call is: the next step it takes. -/
inductive VaultPhase where
  | makeDirectory (identity : VaultIdentity) (change : EntryChange)
  | writeIdentity (identity : VaultIdentity) (change : EntryChange)
  | applyChange (change : EntryChange)
  | closeManager
  | makeTrash
  | chooseDestination
  | renameRoot
  | forget
  deriving DecidableEq, Repr

/-- The call is a soft delete. -/
def VaultPhase.deletes : VaultPhase → Bool
  | .makeDirectory .. | .writeIdentity .. | .applyChange _ => false
  | _ => true

/-- A vault: its entry while it is registered, its folder while there is one, with the metadata
directory and the identity file in it, and the calls that have not returned. `displayName` and
`metadata` are those of the last calls that succeeded; `trashed` says that a soft delete did. -/
structure VaultUpdates where
  entry : Option VaultRegistryEntry
  folder : Option (Option (Option JsString))
  inFlight : Table Nat VaultPhase
  displayName : JsString
  metadata : Option VaultMetadata
  trashed : Bool
  deriving DecidableEq

inductive VaultUpdateLabel where
  | start (call : Nat) (operation : VaultOperation)
  | advance (call : Nat)
  deriving DecidableEq, Repr

namespace VaultUpdates

/-- The call goes on to a phase. -/
def goOn (state : VaultUpdates) (call : Nat) (phase : VaultPhase) : VaultUpdates :=
  { state with inFlight := state.inFlight.set call phase }

/-- The synchronous part of a call; a call that is refused returns at once. -/
def start (state : VaultUpdates) (call : Nat) (operation : VaultOperation) : VaultUpdates :=
  match operation, state.entry with
  | .rename displayName, some entry =>
      if trim displayName = [] then state
      else
        state.goOn call
          (.makeDirectory (entry.renameIdentity (trim displayName)) (.displayName (trim displayName)))
  | .setMetadata input, some entry =>
      match normalizeVaultMetadataInput input with
      | .error _ => state
      | .ok normalized =>
          state.goOn call (.makeDirectory (entry.metadataIdentity normalized)
            (.metadata (storedMetadata (entry.nextMetadata normalized))))
  | .softDelete, some _ => state.goOn call .closeManager
  | _, none => state

/-- The call has returned. -/
def finish (state : VaultUpdates) (call : Nat) : VaultUpdates :=
  { state with inFlight := state.inFlight.delete call }

/-- `mkdir` of the metadata directory, with the folders above it. -/
def makeMetadataDirectory (folder : Option (Option (Option JsString))) :
    Option (Option (Option JsString)) :=
  some (some (folder.join.join))

/-- The change of an update that has succeeded. -/
def applied (state : VaultUpdates) (change : EntryChange) : VaultUpdates :=
  match change with
  | .displayName name =>
      { state with
        entry := state.entry.map fun entry => change.apply entry
        displayName := name }
  | .metadata stored =>
      { state with
        entry := state.entry.map fun entry => change.apply entry
        metadata := stored }

/-- One step of a call; a call that fails returns. -/
def advance (state : VaultUpdates) (call : Nat) : VaultPhase → VaultUpdates
  | .makeDirectory identity change =>
      { state.goOn call (.writeIdentity identity change) with
        folder := makeMetadataDirectory state.folder }
  | .writeIdentity identity change =>
      if (state.folder.bind id).isSome then
        { state.goOn call (.applyChange change) with
          folder := some (some (some (identityText identity))) }
      else state.finish call
  | .applyChange change => (state.applied change).finish call
  | .closeManager => state.goOn call .makeTrash
  | .makeTrash => state.goOn call .chooseDestination
  | .chooseDestination => state.goOn call .renameRoot
  | .renameRoot =>
      if state.folder.isSome then { state.goOn call .forget with folder := none }
      else state.finish call
  | .forget => { state.finish call with entry := none, trashed := true }

/-- The machine of one vault. -/
def machine : Machine VaultUpdates VaultUpdateLabel where
  step state
    | .start call operation =>
        if (state.inFlight.get call).isSome then none else some (state.start call operation)
    | .advance call => (state.inFlight.get call).map (state.advance call)

/-- No update starts while a call is in flight, and no soft delete while an update is. -/
def Serialized (state : VaultUpdates) : VaultUpdateLabel → Prop
  | .start _ .softDelete => ∀ call ∈ state.inFlight.entries, call.2.deletes = true
  | .start _ _ => state.inFlight.entries = []
  | .advance _ => True

instance (state : VaultUpdates) (label : VaultUpdateLabel) : Decidable (Serialized state label) :=
  match label with
  | .start _ .softDelete =>
      inferInstanceAs (Decidable (∀ call ∈ state.inFlight.entries, call.2.deletes = true))
  | .start _ (.rename _) => inferInstanceAs (Decidable (state.inFlight.entries = []))
  | .start _ (.setMetadata _) => inferInstanceAs (Decidable (state.inFlight.entries = []))
  | .advance _ => .isTrue trivial

/-- What holds when all calls have returned: the identity file of a registered vault parses to
its entry, which has the fields of the last successful calls, and a vault that was soft-deleted
has no folder. -/
def IdentityMatches (state : VaultUpdates) : Prop :=
  state.inFlight.entries = [] →
    (∀ entry, state.entry = some entry →
      entry.displayName = state.displayName ∧ entry.metadata = state.metadata ∧
        ∃ raw, state.folder = some (some (some raw)) ∧
          ∀ file, parseVaultIdentity raw file = .ok entry.identity) ∧
      (state.trashed = true → state.folder = none)

/-- A vault that was booted or created. -/
def loaded (entry : VaultRegistryEntry) (raw : JsString) : VaultUpdates :=
  ⟨some entry, some (some (some raw)), .empty, entry.displayName, entry.metadata, false⟩

/-- The identity file is there and parses to the identity. -/
def Stored (state : VaultUpdates) (identity : VaultIdentity) : Prop :=
  ∃ raw, state.folder = some (some (some raw)) ∧ ∀ file, parseVaultIdentity raw file = .ok identity

/-- A soft delete has moved the folder away and has not dropped the entry yet. -/
def Moved (state : VaultUpdates) : Prop := ∃ call, state.inFlight.Holds call .forget

/-- What is stored while an update of the entry is in flight. -/
def Updating (state : VaultUpdates) (entry : VaultRegistryEntry) : VaultPhase → Prop
  | .makeDirectory identity change | .writeIdentity identity change =>
      identity = (change.apply entry).identity ∧ identity.Legible ∧ state.Stored entry.identity
  | .applyChange change => state.Stored (change.apply entry).identity
  | _ => False

/-- The entry has the fields of the last successful calls. -/
def Current (state : VaultUpdates) : Prop :=
  ∀ entry, state.entry = some entry →
    entry.displayName = state.displayName ∧ entry.metadata = state.metadata

/-- What every step keeps: one update is in flight alone, or only soft deletes are. -/
inductive Kept (state : VaultUpdates) : Prop where
  | updating (entry : VaultRegistryEntry) (call : Nat) (phase : VaultPhase) :
      state.entry = some entry → state.inFlight.entries = [(call, phase)] →
        state.Updating entry phase → state.Current → state.trashed = false → Kept state
  | resting : state.inFlight.Unique → (∀ call ∈ state.inFlight.entries, call.2.deletes = true) →
      (state.Moved ∨ state.entry = none → state.folder = none) →
        (∀ entry, state.entry = some entry → ¬ state.Moved → state.Stored entry.identity) →
          state.Current → (state.trashed = true → state.entry = none) → Kept state

theorem kept_loaded {entry : VaultRegistryEntry} {raw : JsString}
    (parsed : ∀ file, parseVaultIdentity raw file = .ok entry.identity) :
    (loaded entry raw).Kept := by
  refine .resting Table.unique_empty (fun _ member => absurd member List.not_mem_nil) ?_ ?_ ?_ ?_
  · rintro (⟨call, moved⟩ | none)
    · cases moved
    · cases none
  · intro other same _
    cases same
    exact ⟨raw, rfl, parsed⟩
  · intro other same
    cases same
    exact ⟨rfl, rfl⟩
  · intro trashed
    cases trashed

variable {state : VaultUpdates}

/-- At rest nothing is being updated. -/
theorem Kept.resting_of_deletes (kept : state.Kept)
    (deletes : ∀ call ∈ state.inFlight.entries, call.2.deletes = true) :
    state.inFlight.Unique ∧ (state.Moved ∨ state.entry = none → state.folder = none) ∧
      (∀ entry, state.entry = some entry → ¬ state.Moved → state.Stored entry.identity) ∧
        (state.trashed = true → state.entry = none) := by
  cases kept with
  | updating entry call phase registered alone updating current live =>
      have deleting := deletes (call, phase) (by rw [alone]; exact List.mem_cons_self)
      cases phase with
      | makeDirectory identity change => cases deleting
      | writeIdentity identity change => cases deleting
      | applyChange change => cases deleting
      | closeManager => exact updating.elim
      | makeTrash => exact updating.elim
      | chooseDestination => exact updating.elim
      | renameRoot => exact updating.elim
      | forget => exact updating.elim
  | resting unique deletes gone stored current trashed => exact ⟨unique, gone, stored, trashed⟩

theorem Kept.current (kept : state.Kept) : state.Current := by
  cases kept with
  | updating _ _ _ _ _ _ current _ => exact current
  | resting _ _ _ _ current _ => exact current

/-- With no call in flight, an update can begin. -/
theorem Kept.begin (kept : state.Kept) (idle : state.inFlight.entries = []) {call : Nat}
    {entry : VaultRegistryEntry} (registered : state.entry = some entry) {identity : VaultIdentity}
    {change : EntryChange} (built : identity = (change.apply entry).identity)
    (legible : entry.identity.Legible → identity.Legible) :
    (state.goOn call (.makeDirectory identity change)).Kept := by
  obtain ⟨_, _, stored, trashed⟩ := kept.resting_of_deletes (by simp [idle])
  have current := stored entry registered (by
    rintro ⟨own, moved⟩
    rw [Table.Holds, idle] at moved
    cases moved)
  have added : (state.inFlight.set call (.makeDirectory identity change)).entries =
      [(call, .makeDirectory identity change)] := by
    rw [Table.set, idle]
    rfl
  refine .updating entry call _ registered added ⟨built, legible ?_, current⟩ kept.current ?_
  · obtain ⟨raw, _, parsed⟩ := current
    exact legible_of_parse (parsed [])
  · cases live : state.trashed with
    | false => exact live
    | true =>
        rw [trashed live] at registered
        cases registered

/-- A soft delete can begin or go on, up to the move of the folder. -/
theorem Kept.goOn (kept : state.Kept) {call : Nat} {phase : VaultPhase}
    (deletes : ∀ call ∈ state.inFlight.entries, call.2.deletes = true)
    (before : ¬ state.inFlight.Holds call .forget) (deleting : phase.deletes = true)
    (early : phase ≠ .forget) : (state.goOn call phase).Kept := by
  obtain ⟨unique, gone, stored, trashed⟩ := kept.resting_of_deletes deletes
  have moved : (state.goOn call phase).Moved ↔ state.Moved := by
    constructor
    · rintro ⟨own, holds⟩
      rcases Table.holds_set.mp holds with ⟨_, same⟩ | ⟨_, old⟩
      · exact absurd same.symm early
      · exact ⟨own, old⟩
    · rintro ⟨own, holds⟩
      refine ⟨own, Table.holds_set.mpr (.inr ⟨?_, holds⟩)⟩
      rintro rfl
      exact before holds
  refine .resting (unique.set call phase) ?_ ?_ ?_ kept.current trashed
  · rintro ⟨own, ownPhase⟩ member
    rcases Table.holds_set.mp member with ⟨_, rfl⟩ | ⟨_, old⟩
    · exact deleting
    · exact deletes _ old
  · rw [moved]
    exact gone
  · rw [moved]
    exact stored

theorem kept_start (kept : state.Kept) {call : Nat} {operation : VaultOperation}
    (fresh : state.inFlight.get call = none)
    (serialized : Serialized state (.start call operation)) :
    (state.start call operation).Kept := by
  unfold start
  cases registered : state.entry with
  | none => cases operation <;> exact kept
  | some entry =>
      cases operation with
      | rename name =>
          dsimp only
          split
          · exact kept
          · rename_i named
            refine kept.begin serialized registered rfl fun legible => ?_
            exact ⟨legible.id, by rwa [VaultRegistryEntry.renameIdentity, trim_trim], legible.metadata⟩
      | setMetadata input =>
          dsimp only
          split
          · exact kept
          · rename_i normalized checked
            refine kept.begin serialized registered rfl fun legible => ?_
            exact ⟨legible.id, legible.displayName,
              RegistryState.normal_storedMetadata legible.metadata checked⟩
      | softDelete =>
          exact kept.goOn serialized (Table.not_holds_of_get fresh _) rfl nofun

/-- A call returns and leaves the rest as it is. -/
theorem moved_finish {call : Nat} (other : ¬ state.inFlight.Holds call .forget) :
    (state.finish call).Moved ↔ state.Moved := by
  constructor
  · rintro ⟨own, holds⟩
    exact ⟨own, (Table.holds_delete.mp holds).2⟩
  · rintro ⟨own, holds⟩
    refine ⟨own, Table.holds_delete.mpr ⟨?_, holds⟩⟩
    rintro rfl
    exact other holds

/-- One step of an update that is alone in flight. -/
theorem kept_advance_updating {entry : VaultRegistryEntry} {call : Nat} {phase : VaultPhase}
    (registered : state.entry = some entry) (alone : state.inFlight.entries = [(call, phase)])
    (updating : state.Updating entry phase) (current : state.Current) (live : state.trashed = false) :
    (state.advance call phase).Kept := by
  have next : ∀ later : VaultPhase, (state.inFlight.set call later).entries = [(call, later)] := by
    intro later
    rw [Table.set, alone]
    simp
  have ended : (state.inFlight.delete call).entries = [] := by
    rw [Table.delete, alone]
    simp
  cases phase with
  | makeDirectory identity change =>
      obtain ⟨built, legible, raw, folder, parsed⟩ := updating
      have kept : makeMetadataDirectory state.folder = state.folder := by
        rw [folder]
        rfl
      exact .updating entry call _ registered (next _)
        ⟨built, legible, raw, kept.trans folder, parsed⟩ current live
  | writeIdentity identity change =>
      obtain ⟨built, legible, raw, folder, parsed⟩ := updating
      rw [advance, if_pos (by rw [folder]; rfl)]
      refine .updating entry call _ registered (next _) ⟨_, rfl, fun file => ?_⟩ current live
      rw [← built]
      exact (parseVaultIdentity_identityText_iff legible.metadata file).mpr legible
  | applyChange change =>
      have entries : ((state.applied change).finish call).inFlight.entries = [] := by
        cases change with
        | displayName name => exact ended
        | metadata stored => exact ended
      have changed : ((state.applied change).finish call).entry = some (change.apply entry) := by
        cases change with
        | displayName name => exact congrArg (Option.map _) registered
        | metadata stored => exact congrArg (Option.map _) registered
      refine .resting ?_ ?_ ?_ ?_ ?_ ?_
      · rw [advance, Table.Unique, entries]
        exact List.nodup_nil
      · rw [advance, entries]
        exact fun _ member => absurd member List.not_mem_nil
      · rintro (⟨own, moved⟩ | none)
        · rw [advance, Table.Holds, entries] at moved
          cases moved
        · rw [advance, changed] at none
          cases none
      · intro other same _
        rw [advance, changed] at same
        cases same
        cases change with
        | displayName name => exact updating
        | metadata stored => exact updating
      · intro other same
        rw [advance, changed] at same
        cases same
        obtain ⟨sameName, sameMetadata⟩ := current entry registered
        cases change with
        | displayName name => exact ⟨rfl, sameMetadata⟩
        | metadata stored => exact ⟨sameName, rfl⟩
      · intro trashed
        cases change with
        | displayName name =>
            rw [show state.trashed = true from trashed] at live
            cases live
        | metadata stored =>
            rw [show state.trashed = true from trashed] at live
            cases live
  | closeManager => exact updating.elim
  | makeTrash => exact updating.elim
  | chooseDestination => exact updating.elim
  | renameRoot => exact updating.elim
  | forget => exact updating.elim

/-- One step of a soft delete while only soft deletes are in flight. -/
theorem kept_advance_deleting (kept : state.Kept)
    (deletes : ∀ call ∈ state.inFlight.entries, call.2.deletes = true) {call : Nat}
    {phase : VaultPhase} (held : state.inFlight.Holds call phase) :
    (state.advance call phase).Kept := by
  obtain ⟨unique, gone, stored, trashed⟩ := kept.resting_of_deletes deletes
  have own : ∀ other, state.inFlight.Holds call other → other = phase := fun other holds =>
    unique.value_eq holds held
  have remaining : ∀ entry ∈ (state.inFlight.delete call).entries, entry.2.deletes = true :=
    fun entry member => deletes entry (Table.within_delete _ call |>.subset member)
  cases phase with
  | makeDirectory identity change => cases deletes _ held
  | writeIdentity identity change => cases deletes _ held
  | applyChange change => cases deletes _ held
  | closeManager => exact kept.goOn deletes (fun holds => by cases own _ holds) rfl nofun
  | makeTrash => exact kept.goOn deletes (fun holds => by cases own _ holds) rfl nofun
  | chooseDestination => exact kept.goOn deletes (fun holds => by cases own _ holds) rfl nofun
  | renameRoot =>
      have unmoved := @moved_finish state call fun holds => by cases own _ holds
      rw [advance]
      split
      · refine .resting (unique.set call _) ?_ (fun _ => rfl) ?_ kept.current trashed
        · rintro ⟨other, otherPhase⟩ member
          rcases Table.holds_set.mp member with ⟨_, rfl⟩ | ⟨_, old⟩
          · rfl
          · exact deletes _ old
        · intro entry _ unmoved
          exact absurd ⟨call, Table.holds_set.mpr (.inl ⟨rfl, rfl⟩)⟩ unmoved
      · exact .resting ((Table.within_delete _ call).unique unique) remaining
          (by rw [unmoved]; exact gone) (by rw [unmoved]; exact stored) kept.current trashed
  | forget =>
      refine .resting ((Table.within_delete _ call).unique unique) remaining
        (fun _ => gone (.inl ⟨call, held⟩)) ?_ ?_ (fun _ => rfl)
      · intro entry none
        cases none
      · intro entry none
        cases none

/-- **One step.** A step under the condition keeps what is stored. -/
theorem kept_step {label : VaultUpdateLabel} {next : VaultUpdates}
    (serialized : Serialized state label) (stepped : machine.step state label = some next)
    (kept : state.Kept) : next.Kept := by
  cases label with
  | start call operation =>
      change (if (state.inFlight.get call).isSome then none else _) = some next at stepped
      split at stepped
      · cases stepped
      · rename_i fresh
        cases stepped
        exact kept_start kept (by simpa using fresh) serialized
  | advance call =>
      obtain ⟨phase, found, rfl⟩ := Option.map_eq_some_iff.mp stepped
      have held := Table.holds_of_get found
      cases kept with
      | updating entry own ownPhase registered alone updating current live =>
          rw [Table.Holds, alone] at held
          cases List.mem_singleton.mp held
          exact kept_advance_updating registered alone updating current live
      | resting unique deletes gone stored current trashed =>
          exact kept_advance_deleting (.resting unique deletes gone stored current trashed) deletes
            held

/-- **The registry and the disk.** When no update overlaps another call, the identity file of a
registered vault parses to its entry whenever all calls have returned, with the fields of the
last successful calls, and a vault that was soft-deleted has no folder. -/
theorem identity_matches_registry {entry : VaultRegistryEntry} {raw : JsString}
    (parsed : ∀ file, parseVaultIdentity raw file = .ok entry.identity)
    {labels : List VaultUpdateLabel} {target : VaultUpdates}
    (run : machine.Run Serialized (loaded entry raw) labels target) : target.IdentityMatches := by
  have kept := run.invariant (fun _ _ _ allowed stepped before => kept_step allowed stepped before)
    (kept_loaded parsed)
  intro idle
  obtain ⟨_, gone, stored, trashed⟩ := kept.resting_of_deletes (by simp [idle])
  refine ⟨fun other registered => ?_, fun was => gone (.inr (trashed was))⟩
  have current := kept.current other registered
  refine ⟨current.1, current.2, stored other registered ?_⟩
  rintro ⟨call, moved⟩
  rw [Table.Holds, idle] at moved
  cases moved

/-- The entry of a vault of notes. -/
def notesEntry : VaultRegistryEntry := ⟨units "notes", units "Notes", units "/kb/vaults/notes", none⟩

/-- The vault of notes as it was created. -/
def notesVault : VaultUpdates := loaded notesEntry (identityText notesEntry.identity)

/-- The identity of the vault of notes is read back from its file. -/
theorem notesEntry_parsed (file : JsString) :
    parseVaultIdentity (identityText notesEntry.identity) file = .ok notesEntry.identity := by
  have plain : NormalMetadata notesEntry.metadata := by
    intro metadata same
    cases same
  exact (parseVaultIdentity_identityText_iff plain file).mpr ⟨by decide, by decide, plain⟩

/-- A rename, a new color and a soft delete, one after the other. -/
def callsInTurn : List VaultUpdateLabel :=
  [.start 0 (.rename (units "Diary")), .advance 0, .advance 0, .advance 0,
    .start 1 (.setMetadata (.string (units "#F00"))), .advance 1, .advance 1, .advance 1,
    .start 2 .softDelete, .advance 2, .advance 2, .advance 2, .advance 2, .advance 2]

/-- A vault is renamed, gets a color and is soft-deleted. -/
theorem identity_matches_registry_in_turn :
    ∃ target, machine.Run Serialized notesVault callsInTurn target ∧
      (target.metadata, target.trashed) = (some ⟨some (units "#ff0000")⟩, true) ∧
        target.IdentityMatches := by
  obtain ⟨target, run, seen⟩ : ∃ target, machine.Run Serialized notesVault callsInTurn target ∧
      (target.metadata, target.trashed) = (some ⟨some (units "#ff0000")⟩, true) :=
    Machine.evaluate_view (by decide +kernel)
  exact ⟨target, run, seen, identity_matches_registry notesEntry_parsed run⟩

/-- A rename and a new color that overlap. -/
def overlappingUpdates : List VaultUpdateLabel :=
  [.start 0 (.rename (units "Diary")), .start 1 (.setMetadata (.string (units "#F00"))),
    .advance 0, .advance 0, .advance 0, .advance 1, .advance 1, .advance 1]

/-- A soft delete that overtakes a rename. -/
def overtakenUpdate : List VaultUpdateLabel :=
  [.start 0 (.rename (units "Diary")), .start 1 .softDelete, .advance 1, .advance 1, .advance 1,
    .advance 1, .advance 1, .advance 0, .advance 0, .advance 0]

/-- Setting the color while the vault is being renamed writes the old name over the new one; a
rename that is overtaken by a soft delete makes the folder of the vault anew. -/
theorem identity_overlapping_updates :
    (∃ target, machine.Run (fun _ _ => True) notesVault overlappingUpdates target ∧
      ¬ target.IdentityMatches) ∧
    ∃ target, machine.Run (fun _ _ => True) notesVault overtakenUpdate target ∧
      ¬ target.IdentityMatches := by
  constructor
  · obtain ⟨target, run, seen⟩ : ∃ target,
        machine.Run (fun _ _ => True) notesVault overlappingUpdates target ∧
        (target.inFlight.entries.isEmpty, target.entry.map (·.displayName), target.folder.join.join) =
          (true, some (units "Diary"), some (identityText
            ⟨units "notes", units "Notes", some ⟨some (units "#ff0000")⟩⟩)) :=
      Machine.evaluate_view (by decide +kernel)
    refine ⟨target, run, fun matching => ?_⟩
    obtain ⟨idle, stored⟩ := Prod.mk.inj seen
    obtain ⟨named, written⟩ := Prod.mk.inj stored
    obtain ⟨entry, registered, diary⟩ := Option.map_eq_some_iff.mp named
    obtain ⟨_, _, raw, same, parsed⟩ := (matching (List.isEmpty_iff.mp idle)).1 _ registered
    rw [same] at written
    cases written
    have read := congrArg (Except.map (·.displayName)) (parsed [])
    change _ = Except.ok entry.displayName at read
    rw [diary] at read
    revert read
    decide +kernel
  · obtain ⟨target, run, seen⟩ : ∃ target,
        machine.Run (fun _ _ => True) notesVault overtakenUpdate target ∧
        (target.inFlight.entries.isEmpty, target.trashed, target.folder.isSome) =
          (true, true, true) :=
      Machine.evaluate_view (by decide +kernel)
    refine ⟨target, run, fun matching => ?_⟩
    obtain ⟨idle, rest⟩ := Prod.mk.inj seen
    obtain ⟨trashed, folder⟩ := Prod.mk.inj rest
    rw [(matching (List.isEmpty_iff.mp idle)).2 trashed] at folder
    cases folder

end VaultUpdates

end Kb1Daemon
