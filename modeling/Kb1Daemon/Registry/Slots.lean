import Kb1Daemon.Foundation.Machine
import Kb1Daemon.Registry.Entry
import Kb1Daemon.Registry.Live

/-! # One vault per slug

Creating a vault looks for its slug and its folder, makes the folder and registers the vault,
with awaits in between; a soft delete ends the subscription, closes the manager, moves the folder
and drops the vault. The machine interleaves all calls on the registry at their awaits, and any
call may fail where it does I/O. Under a condition on the steps that may overlap, creates of a
slug exclude each other, every vault has one manager that is open, and the registry listens to
the live instances and no others (`one_vault_per_slug`).
-/

namespace Kb1Daemon

open JsString

/-- The next step of a create. -/
inductive CreatePhase where
  | findFolder
  | makeRoot
  | makeDirectory
  | writeIdentity
  | seed
  | register
  deriving DecidableEq, Repr

/-- The next step of a rename or of setting metadata. -/
inductive UpdatePhase where
  | makeDirectory
  | writeIdentity
  | change
  deriving DecidableEq, Repr

/-- The next step of a soft delete. -/
inductive DeletePhase where
  | closeManager
  | makeTrash
  | chooseDestination
  | renameRoot
  | forget
  deriving DecidableEq, Repr

/-- A call that has not returned. A create is overtaken when another create of its slug has
returned ok since it started. -/
inductive RegistryFlight where
  | create (slug : JsString) (phase : CreatePhase) (overtaken : Bool)
  | update (root : JsString) (phase : UpdatePhase)
  | softDelete (vault : VaultInstance) (phase : DeletePhase)
  deriving DecidableEq, Repr

namespace RegistryFlight

/-- The flight is a create of the slug. -/
def creates (slug : JsString) : RegistryFlight → Bool
  | .create own _ _ => own = slug
  | _ => false

/-- The flight is a soft delete of the vault. -/
def deletes (vault : VaultInstance) : RegistryFlight → Bool
  | .softDelete own _ => own = vault
  | _ => false

/-- A create of the slug has returned ok. -/
def overtake (slug : JsString) : RegistryFlight → RegistryFlight
  | .create own phase overtaken => .create own phase (overtaken || own = slug)
  | flight => flight

/-- The next step does I/O. -/
def canFail : RegistryFlight → Bool
  | .create _ .register _ | .update _ .change | .softDelete _ .forget => false
  | _ => true

end RegistryFlight

/-- The registry with the instances that were built, those whose manager is closed, the roots
that have a folder and the calls in flight. `bothOk` says that two creates of a slug that
overlapped have both returned ok. -/
structure VaultSlots where
  vaultsHome : JsString
  registry : LiveRegistry
  built : List VaultInstance
  closed : List VaultInstance
  folders : List JsString
  inFlight : Table Nat RegistryFlight
  bothOk : Bool
  deriving DecidableEq

inductive SlotLabel where
  | create (call : Nat) (displayName slug : JsString)
  | rename (call : Nat) (id displayName : JsString)
  | setMetadata (call : Nat) (id : JsString) (input : ColorInput)
  | softDelete (call : Nat) (id : JsString)
  | subscribe (handler : Nat)
  | unsubscribe (handler : Nat)
  | advance (call : Nat)
  | fail (call : Nat)
  deriving DecidableEq, Repr

namespace VaultSlots

/-- The root of a vault that is created. -/
def root (state : VaultSlots) (slug : JsString) : JsString :=
  Segments.child slash state.vaultsHome slug

/-- The call goes on. -/
def goOn (state : VaultSlots) (call : Nat) (flight : RegistryFlight) : VaultSlots :=
  { state with inFlight := state.inFlight.set call flight }

/-- The call has returned. -/
def finish (state : VaultSlots) (call : Nat) : VaultSlots :=
  { state with inFlight := state.inFlight.delete call }

/-- `mkdir` of a root, or of a folder below it. -/
def withFolder (state : VaultSlots) (root : JsString) : VaultSlots :=
  { state with folders := root :: state.folders }

/-- The instance a create builds. -/
def nextInstance (state : VaultSlots) (slug : JsString) : VaultInstance :=
  ⟨state.built.length, slug, state.root slug⟩

/-- The end of a create: the vault is registered and the call returns ok. -/
def register (state : VaultSlots) (call : Nat) (slug : JsString) (overtaken : Bool) : VaultSlots :=
  let vault := state.nextInstance slug
  { state with
    registry := LiveRegistry.subscribeInstance
      { state.registry with instances := state.registry.instances.set vault } vault
    built := vault :: state.built
    inFlight := (state.inFlight.delete call).mapValues (RegistryFlight.overtake slug)
    bothOk := state.bothOk || overtaken }

def create (slugger : Slugger) (state : VaultSlots) (call : Nat) (displayName slug : JsString) :
    VaultSlots :=
  if trim displayName = [] then state
  else if !slugger.isWellFormedSlug slug then state
  else if (state.registry.instances.get slug).isSome then state
  else state.goOn call (.create slug .findFolder false)

def rename (state : VaultSlots) (call : Nat) (id displayName : JsString) : VaultSlots :=
  if trim displayName = [] then state
  else
    match state.registry.instances.get id with
    | none => state
    | some vault => state.goOn call (.update vault.root .makeDirectory)

def setMetadata (state : VaultSlots) (call : Nat) (id : JsString) (input : ColorInput) :
    VaultSlots :=
  match state.registry.instances.get id with
  | none => state
  | some vault =>
      match normalizeVaultMetadataInput input with
      | .error _ => state
      | .ok _ => state.goOn call (.update vault.root .makeDirectory)

def softDelete (state : VaultSlots) (call : Nat) (id : JsString) : VaultSlots :=
  match state.registry.instances.get id with
  | none => state
  | some vault =>
      { state.goOn call (.softDelete vault .closeManager) with
        registry := state.registry.unsubscribeInstance id }

/-- One step of a call that succeeds, when it can. -/
def advance (state : VaultSlots) (call : Nat) : RegistryFlight → Option VaultSlots
  | .create slug .findFolder overtaken =>
      if state.root slug ∈ state.folders then some (state.finish call)
      else some (state.goOn call (.create slug .makeRoot overtaken))
  | .create slug .makeRoot overtaken =>
      some ((state.goOn call (.create slug .makeDirectory overtaken)).withFolder (state.root slug))
  | .create slug .makeDirectory overtaken =>
      some ((state.goOn call (.create slug .writeIdentity overtaken)).withFolder (state.root slug))
  | .create slug .writeIdentity overtaken =>
      if state.root slug ∈ state.folders then some (state.goOn call (.create slug .seed overtaken))
      else none
  | .create slug .seed overtaken => some (state.goOn call (.create slug .register overtaken))
  | .create slug .register overtaken => some (state.register call slug overtaken)
  | .update root .makeDirectory =>
      some ((state.goOn call (.update root .writeIdentity)).withFolder root)
  | .update root .writeIdentity =>
      if root ∈ state.folders then some (state.goOn call (.update root .change)) else none
  | .update _ .change => some (state.finish call)
  | .softDelete vault .closeManager =>
      some { state.goOn call (.softDelete vault .makeTrash) with closed := vault :: state.closed }
  | .softDelete vault .makeTrash => some (state.goOn call (.softDelete vault .chooseDestination))
  | .softDelete vault .chooseDestination => some (state.goOn call (.softDelete vault .renameRoot))
  | .softDelete vault .renameRoot =>
      if vault.root ∈ state.folders then
        some { state.goOn call (.softDelete vault .forget) with
          folders := state.folders.filter (· ≠ vault.root) }
      else none
  | .softDelete vault .forget =>
      some { state.finish call with
        registry := { state.registry with
          instances := state.registry.instances.delete vault.slug } }

/-- A call starts under a number that is not in use. -/
def begin (state : VaultSlots) (call : Nat) (started : VaultSlots) : Option VaultSlots :=
  if (state.inFlight.get call).isSome then none else some started

/-- The machine of a registry. -/
def machine (slugger : Slugger) : Machine VaultSlots SlotLabel where
  step state
    | .create call displayName slug => state.begin call (state.create slugger call displayName slug)
    | .rename call id displayName => state.begin call (state.rename call id displayName)
    | .setMetadata call id input => state.begin call (state.setMetadata call id input)
    | .softDelete call id => state.begin call (state.softDelete call id)
    | .subscribe handler => some { state with registry := state.registry.onVaultEvent handler }
    | .unsubscribe handler => some { state with registry := state.registry.offVaultEvent handler }
    | .advance call => (state.inFlight.get call).bind (state.advance call)
    | .fail call =>
        (state.inFlight.get call).bind fun flight =>
          if flight.canFail then some (state.finish call) else none

/-- A soft delete of the vault is in flight. -/
def Deleting (state : VaultSlots) (vault : VaultInstance) : Prop :=
  ∃ call phase, state.inFlight.Holds call (.softDelete vault phase)

/-- A soft delete has moved the vault's folder away and has not dropped the vault yet. -/
def Moved (state : VaultSlots) (vault : VaultInstance) : Prop :=
  ∃ call, state.inFlight.Holds call (.softDelete vault .forget)

/-- A create finds its slot free while no other one that found it free has the folder still to
make; a soft delete moves the folder of a vault that no other one has moved or dropped. -/
def MayAdvance (state : VaultSlots) : RegistryFlight → Prop
  | .create slug .findFolder _ =>
      ∀ entry ∈ state.inFlight.entries, ∀ overtaken ∈ [true, false],
        entry.2 ≠ .create slug .makeRoot overtaken
  | .softDelete vault .renameRoot =>
      vault ∈ state.registry.instances ∧
        ∀ entry ∈ state.inFlight.entries, entry.2 ≠ .softDelete vault .forget
  | _ => True

instance (state : VaultSlots) (flight : RegistryFlight) : Decidable (state.MayAdvance flight) :=
  match flight with
  | .create slug .findFolder _ =>
      inferInstanceAs (Decidable (∀ entry ∈ state.inFlight.entries, ∀ overtaken ∈ [true, false],
        entry.2 ≠ .create slug .makeRoot overtaken))
  | .softDelete vault .renameRoot =>
      inferInstanceAs (Decidable (vault ∈ state.registry.instances ∧
        ∀ entry ∈ state.inFlight.entries, entry.2 ≠ .softDelete vault .forget))
  | .create _ .makeRoot _ | .create _ .makeDirectory _ | .create _ .writeIdentity _
  | .create _ .seed _ | .create _ .register _ | .update _ _ | .softDelete _ .closeManager
  | .softDelete _ .makeTrash | .softDelete _ .chooseDestination | .softDelete _ .forget =>
      .isTrue trivial

/-- A soft delete fails when another one has moved the folder or has dropped the vault. -/
def MayFail (state : VaultSlots) : RegistryFlight → Prop
  | .softDelete vault _ =>
      vault ∉ state.registry.instances ∨
        ∃ entry ∈ state.inFlight.entries, entry.2 = .softDelete vault .forget
  | _ => True

instance (state : VaultSlots) (flight : RegistryFlight) : Decidable (state.MayFail flight) :=
  match flight with
  | .softDelete vault _ =>
      inferInstanceAs (Decidable (vault ∉ state.registry.instances ∨
        ∃ entry ∈ state.inFlight.entries, entry.2 = .softDelete vault .forget))
  | .create .. | .update .. => .isTrue trivial

/-- The steps that may overlap: no soft delete starts while its slug is being created, the first
handler is not registered while a registered vault is being deleted, and calls go on or fail only
when they may. -/
def Disjoint (state : VaultSlots) : SlotLabel → Prop
  | .softDelete _ id => ∀ entry ∈ state.inFlight.entries, entry.2.creates id = false
  | .subscribe handler =>
      (state.registry.eventHandlers.insert handler).length = 1 →
        ∀ vault ∈ state.registry.instances.values, ∀ entry ∈ state.inFlight.entries,
          entry.2.deletes vault = false
  | .advance call => ∀ flight ∈ state.inFlight.get call, state.MayAdvance flight
  | .fail call => ∀ flight ∈ state.inFlight.get call, state.MayFail flight
  | _ => True

instance (state : VaultSlots) (label : SlotLabel) : Decidable (Disjoint state label) :=
  match label with
  | .create .. | .rename .. | .setMetadata .. | .unsubscribe _ => .isTrue trivial
  | .softDelete _ id =>
      inferInstanceAs (Decidable (∀ entry ∈ state.inFlight.entries, entry.2.creates id = false))
  | .subscribe handler =>
      inferInstanceAs (Decidable ((state.registry.eventHandlers.insert handler).length = 1 →
        ∀ vault ∈ state.registry.instances.values, ∀ entry ∈ state.inFlight.entries,
          entry.2.deletes vault = false))
  | .advance call =>
      inferInstanceAs (Decidable (∀ flight ∈ state.inFlight.get call, state.MayAdvance flight))
  | .fail call =>
      inferInstanceAs (Decidable (∀ flight ∈ state.inFlight.get call, state.MayFail flight))

/-- Creates of a slug exclude each other; every live root is served by the instance in the
registry and by no other; and while there are handlers, exactly the events of live instances
reach them, each event each handler once. -/
structure OneVaultPerSlug (state : VaultSlots) : Prop where
  creates : state.bothOk = false
  served : ∀ vault ∈ state.registry.instances, ¬ state.Deleting vault →
    vault ∈ state.built ∧ vault ∉ state.closed ∧
      ∀ other ∈ state.built, other ∉ state.closed → other.root = vault.root → other = vault
  registered : ∀ vault ∈ state.built, vault ∉ state.closed → vault ∈ state.registry.instances
  subscribed : ∀ vault, (vault ∈ state.registry.instances ∧ ¬ state.Deleting vault →
      state.registry.receivers vault = state.registry.eventHandlers) ∧
    (¬ (vault ∈ state.registry.instances ∧ ¬ state.Deleting vault) →
      state.registry.receivers vault = [])

/-- A registry that was loaded: every instance has a number, a root and a folder of its own. -/
structure Loaded (state : VaultSlots) : Prop where
  silent : state.registry.eventHandlers = []
  unheard : ∀ vault, vault ∉ state.registry.eventUnsubscribers
  built : ∀ vault, vault ∈ state.built ↔ vault ∈ state.registry.instances
  numbers : ∀ vault ∈ state.built, vault.number < state.built.length
  open_ : state.closed = []
  roots : ∀ vault ∈ state.registry.instances, ∀ other ∈ state.registry.instances,
    vault.root = other.root → vault = other
  folders : ∀ vault ∈ state.registry.instances, vault.root ∈ state.folders
  idle : state.inFlight = .empty
  apart : state.bothOk = false

/-- The slot of a create that has found it free: it is not in the registry, and no vault whose
folder is in place has its root. -/
structure Claims (state : VaultSlots) (slug : JsString) (phase : CreatePhase) (overtaken : Bool) :
    Prop where
  first : overtaken = false
  unregistered : ∀ vault ∈ state.registry.instances, vault.slug ≠ slug
  root : ∀ vault ∈ state.registry.instances, ¬ state.Moved vault → vault.root ≠ state.root slug
  folder : phase ≠ .makeRoot → state.root slug ∈ state.folders

/-- The slot of a create that has not looked at the folder yet: a vault that is registered under
its slug was created since it started and is not being deleted. -/
structure Waits (state : VaultSlots) (slug : JsString) (overtaken : Bool) : Prop where
  root : ∀ vault ∈ state.registry.instances, vault.slug = slug →
    vault.root = state.root slug ∧ ¬ state.Deleting vault
  overtaken : overtaken = true → ∃ vault ∈ state.registry.instances, vault.slug = slug

/-- What holds of a create in flight. -/
def Creating (state : VaultSlots) (slug : JsString) (phase : CreatePhase) (overtaken : Bool) :
    Prop :=
  (phase = .findFolder → state.Waits slug overtaken) ∧
    (phase ≠ .findFolder → state.Claims slug phase overtaken)

/-- What every step keeps. -/
structure Kept (state : VaultSlots) : Prop where
  calls : state.inFlight.Unique
  numbers : ∀ vault ∈ state.built, vault.number < state.built.length
  listed : ∀ vault ∈ state.registry.instances, vault ∈ state.built
  registered : ∀ vault ∈ state.built, vault ∉ state.closed → vault ∈ state.registry.instances
  known : ∀ vault ∈ state.closed, vault ∈ state.built
  closing : ∀ vault ∈ state.registry.instances, vault ∈ state.closed → state.Deleting vault
  deleting : ∀ call vault phase, state.inFlight.Holds call (.softDelete vault phase) →
    vault ∈ state.built ∧ (phase ≠ .closeManager → vault ∈ state.closed)
  moved : ∀ call vault, state.inFlight.Holds call (.softDelete vault .forget) →
    vault ∈ state.registry.instances ∧
      ∀ other, state.inFlight.Holds other (.softDelete vault .forget) → other = call
  folders : ∀ vault ∈ state.registry.instances, ¬ state.Moved vault → vault.root ∈ state.folders
  roots : ∀ vault ∈ state.registry.instances, ∀ other ∈ state.registry.instances,
    ¬ state.Moved vault → ¬ state.Moved other → vault.root = other.root → vault = other
  creating : ∀ call slug phase overtaken,
    state.inFlight.Holds call (.create slug phase overtaken) → state.Creating slug phase overtaken
  claimers : ∀ call other slug phase otherPhase overtaken otherOvertaken,
    state.inFlight.Holds call (.create slug phase overtaken) →
      state.inFlight.Holds other (.create slug otherPhase otherOvertaken) →
        phase ≠ .findFolder → otherPhase ≠ .findFolder → call = other
  heard : ∀ vault, vault ∈ state.registry.eventUnsubscribers ↔
    state.registry.eventHandlers ≠ [] ∧ vault ∈ state.registry.instances ∧ ¬ state.Deleting vault
  apart : state.bothOk = false

variable {state next : VaultSlots}

/-- What every step keeps gives the property. -/
theorem Kept.oneVaultPerSlug (kept : state.Kept) : state.OneVaultPerSlug := by
  have unmoved : ∀ vault ∈ state.built, vault ∉ state.closed → ¬ state.Moved vault := by
    rintro vault _ open_ ⟨call, held⟩
    exact open_ ((kept.deleting call vault .forget held).2 nofun)
  refine ⟨kept.apart, fun vault member live => ?_, kept.registered, fun vault => ⟨?_, ?_⟩⟩
  · have built := kept.listed vault member
    have open_ : vault ∉ state.closed := fun closed => live (kept.closing vault member closed)
    refine ⟨built, open_, fun other otherBuilt otherOpen same => ?_⟩
    exact kept.roots other (kept.registered other otherBuilt otherOpen) vault member
      (unmoved other otherBuilt otherOpen) (unmoved vault built open_) same
  · intro live
    rw [LiveRegistry.receivers_eq]
    split
    · rfl
    · rename_i unheard
      by_contra some_
      exact unheard ((kept.heard vault).mpr ⟨fun none => some_ none.symm, live⟩)
  · intro dead
    rw [LiveRegistry.receivers_eq, if_neg]
    exact fun subscribed => dead ((kept.heard vault).mp subscribed).2

theorem Loaded.kept (loaded : state.Loaded) : state.Kept := by
  have idle : ∀ call flight, ¬ state.inFlight.Holds call flight := by
    intro call flight held
    rw [loaded.idle] at held
    cases held
  constructor
  · rw [loaded.idle]
    exact Table.unique_empty
  · exact loaded.numbers
  · exact fun vault member => (loaded.built vault).mpr member
  · exact fun vault member _ => (loaded.built vault).mp member
  · rw [loaded.open_]
    exact fun vault closed => absurd closed List.not_mem_nil
  · intro vault _ closed
    rw [loaded.open_] at closed
    cases closed
  · exact fun call vault phase held => absurd held (idle _ _)
  · exact fun call vault held => absurd held (idle _ _)
  · exact fun vault member _ => loaded.folders vault member
  · exact fun vault member other also _ _ same => loaded.roots vault member other also same
  · exact fun call slug phase overtaken held => absurd held (idle _ _)
  · exact fun call other slug phase otherPhase overtaken otherOvertaken held => absurd held (idle _ _)
  · intro vault
    constructor
    · exact fun heard => absurd heard (loaded.unheard vault)
    · exact fun heard => absurd loaded.silent heard.1
  · exact loaded.apart

/-- A step that moves no vault and changes at most the phases of calls and the folders that are
there. -/
structure Phased (state next : VaultSlots) : Prop where
  home : next.vaultsHome = state.vaultsHome
  registry : next.registry = state.registry
  built : next.built = state.built
  closed : next.closed = state.closed
  apart : next.bothOk = state.bothOk
  folders : state.folders ⊆ next.folders
  calls : next.inFlight.Unique
  deleting : ∀ vault, next.Deleting vault ↔ state.Deleting vault
  moved : ∀ call vault, next.inFlight.Holds call (.softDelete vault .forget) ↔
    state.inFlight.Holds call (.softDelete vault .forget)
  deletes : ∀ call vault phase, next.inFlight.Holds call (.softDelete vault phase) →
    ∃ before, state.inFlight.Holds call (.softDelete vault before) ∧
      (phase ≠ .closeManager → before ≠ .closeManager)
  creates : ∀ call slug phase overtaken, next.inFlight.Holds call (.create slug phase overtaken) →
    ∃ before, state.inFlight.Holds call (.create slug before overtaken) ∧
      (phase = .findFolder ↔ before = .findFolder) ∧
        (phase ≠ .makeRoot → before = .makeRoot → next.root slug ∈ next.folders)

theorem Phased.kept (phased : Phased state next) (kept : state.Kept) : next.Kept := by
  have movedIff : ∀ vault, next.Moved vault ↔ state.Moved vault := fun vault =>
    exists_congr fun call => phased.moved call vault
  have sameRoot : ∀ slug, next.root slug = state.root slug := by
    intro slug
    rw [root, root, phased.home]
  constructor
  · exact phased.calls
  · rw [phased.built]
    exact kept.numbers
  · rw [phased.registry, phased.built]
    exact kept.listed
  · rw [phased.registry, phased.built, phased.closed]
    exact kept.registered
  · rw [phased.closed, phased.built]
    exact kept.known
  · intro vault member closed
    rw [phased.registry] at member
    rw [phased.closed] at closed
    exact (phased.deleting vault).mpr (kept.closing vault member closed)
  · intro call vault phase held
    obtain ⟨before, old, later⟩ := phased.deletes call vault phase held
    obtain ⟨built, closed⟩ := kept.deleting call vault before old
    rw [phased.built, phased.closed]
    exact ⟨built, fun begun => closed (later begun)⟩
  · intro call vault held
    obtain ⟨member, alone⟩ := kept.moved call vault ((phased.moved call vault).mp held)
    rw [phased.registry]
    exact ⟨member, fun other also => alone other ((phased.moved other vault).mp also)⟩
  · intro vault member unmoved
    rw [phased.registry] at member
    exact phased.folders (kept.folders vault member fun moved => unmoved ((movedIff vault).mpr moved))
  · intro vault member other also unmoved otherUnmoved
    rw [phased.registry] at member also
    exact kept.roots vault member other also (fun moved => unmoved ((movedIff vault).mpr moved))
      fun moved => otherUnmoved ((movedIff other).mpr moved)
  · intro call slug phase overtaken held
    obtain ⟨before, old, same, made⟩ := phased.creates call slug phase overtaken held
    obtain ⟨waits, claims⟩ := kept.creating call slug before overtaken old
    refine ⟨fun waiting => ?_, fun claiming => ?_⟩
    · obtain ⟨root, late⟩ := waits (same.mp waiting)
      refine ⟨fun vault member own => ?_, ?_⟩
      · rw [phased.registry] at member
        rw [sameRoot, phased.deleting]
        exact root vault member own
      · rwa [phased.registry]
    · obtain ⟨first, unregistered, root, folder⟩ := claims fun waiting => claiming (same.mpr waiting)
      refine ⟨first, ?_, ?_, fun later => ?_⟩
      · rwa [phased.registry]
      · intro vault member unmoved
        rw [phased.registry] at member
        rw [sameRoot]
        exact root vault member fun moved => unmoved ((movedIff vault).mpr moved)
      · by_cases fresh : before = .makeRoot
        · exact made later fresh
        · rw [sameRoot]
          exact phased.folders (folder fresh)
  · intro call other slug phase otherPhase overtaken otherOvertaken held also claiming otherClaiming
    obtain ⟨before, old, same, _⟩ := phased.creates call slug phase overtaken held
    obtain ⟨otherBefore, otherOld, otherSame, _⟩ :=
      phased.creates other slug otherPhase otherOvertaken also
    exact kept.claimers call other slug before otherBefore overtaken otherOvertaken old otherOld
      (fun waiting => claiming (same.mpr waiting)) fun waiting => otherClaiming (otherSame.mpr waiting)
  · intro vault
    rw [phased.registry, phased.deleting]
    exact kept.heard vault
  · rw [phased.apart]
    exact kept.apart

/-- A call goes on in the same kind of phase. -/
def Follows (state : VaultSlots) (folders : List JsString) : RegistryFlight → RegistryFlight → Prop
  | .create slug before overtaken, .create other phase otherOvertaken =>
      other = slug ∧ otherOvertaken = overtaken ∧ (phase = .findFolder ↔ before = .findFolder) ∧
        (phase ≠ .makeRoot → before = .makeRoot → state.root slug ∈ folders)
  | .update _ _, .update _ _ => True
  | .softDelete vault before, .softDelete other phase =>
      other = vault ∧ before ≠ .forget ∧ phase ≠ .forget ∧ before ≠ .closeManager
  | _, _ => False

theorem phased_goOn (unique : state.inFlight.Unique) {call : Nat} {before flight : RegistryFlight}
    (held : state.inFlight.Holds call before) {folders : List JsString}
    (grown : state.folders ⊆ folders) (follows : state.Follows folders before flight) :
    Phased state { state.goOn call flight with folders := folders } := by
  have own : ∀ other, state.inFlight.Holds call other → other = before := fun other also =>
    unique.value_eq also held
  refine ⟨rfl, rfl, rfl, rfl, rfl, grown, unique.set call flight, ?_, ?_, ?_, ?_⟩
  · intro vault
    constructor
    · rintro ⟨other, phase, also⟩
      rcases Table.holds_set.mp also with ⟨rfl, rfl⟩ | ⟨_, old⟩
      · cases before with
        | create slug before overtaken => exact follows.elim
        | update root before => exact follows.elim
        | softDelete vault before =>
            obtain ⟨rfl, _⟩ := follows
            exact ⟨_, _, held⟩
      · exact ⟨other, phase, old⟩
    · rintro ⟨other, phase, old⟩
      by_cases same : other = call
      · subst same
        cases own _ old
        cases flight with
        | create slug before overtaken => exact follows.elim
        | update root before => exact follows.elim
        | softDelete vault later =>
            obtain ⟨rfl, _⟩ := follows
            exact ⟨other, later, Table.holds_set.mpr (.inl ⟨rfl, rfl⟩)⟩
      · exact ⟨other, phase, Table.holds_set.mpr (.inr ⟨same, old⟩)⟩
  · intro other vault
    constructor
    · intro also
      rcases Table.holds_set.mp also with ⟨rfl, rfl⟩ | ⟨_, old⟩
      · cases before with
        | create slug before overtaken => exact follows.elim
        | update root before => exact follows.elim
        | softDelete vault before => exact absurd rfl follows.2.2.1
      · exact old
    · intro old
      refine Table.holds_set.mpr (.inr ⟨?_, old⟩)
      rintro rfl
      cases own _ old
      cases flight with
      | create slug before overtaken => exact follows
      | update root before => exact follows
      | softDelete vault later => exact follows.2.1 rfl
  · intro other vault phase also
    rcases Table.holds_set.mp also with ⟨rfl, rfl⟩ | ⟨_, old⟩
    · cases before with
      | create slug before overtaken => exact follows.elim
      | update root before => exact follows.elim
      | softDelete vault before =>
          obtain ⟨rfl, _, _, begun⟩ := follows
          exact ⟨before, held, fun _ => begun⟩
    · exact ⟨phase, old, id⟩
  · intro other slug phase overtaken also
    rcases Table.holds_set.mp also with ⟨rfl, rfl⟩ | ⟨_, old⟩
    · cases before with
      | create slug before overtaken =>
          obtain ⟨rfl, rfl, same, made⟩ := follows
          exact ⟨before, held, same, made⟩
      | update root before => exact follows.elim
      | softDelete vault before => exact follows.elim
    · exact ⟨phase, old, Iff.rfl, fun later fresh => absurd fresh later⟩

/-- A call that is no soft delete returns. -/
theorem phased_finish (unique : state.inFlight.Unique) {call : Nat}
    (other : ∀ vault phase, ¬ state.inFlight.Holds call (.softDelete vault phase)) :
    Phased state (state.finish call) := by
  have within := Table.within_delete state.inFlight call
  have kept : ∀ own vault phase, state.inFlight.Holds own (.softDelete vault phase) →
      (state.inFlight.delete call).Holds own (.softDelete vault phase) := by
    intro own vault phase old
    refine Table.holds_delete.mpr ⟨?_, old⟩
    rintro rfl
    exact other vault phase old
  refine ⟨rfl, rfl, rfl, rfl, rfl, List.Subset.refl _, within.unique unique, fun vault => ?_,
    fun own vault => ?_, fun own vault phase also => ⟨phase, within.holds also, id⟩,
    fun own slug phase overtaken also =>
      ⟨phase, within.holds also, Iff.rfl, fun later fresh => absurd fresh later⟩⟩
  · constructor
    · rintro ⟨own, phase, also⟩
      exact ⟨own, phase, within.holds also⟩
    · rintro ⟨own, phase, old⟩
      exact ⟨own, phase, kept own vault phase old⟩
  · exact ⟨fun also => within.holds also, kept own vault .forget⟩

/-- An update starts. -/
theorem phased_update (unique : state.inFlight.Unique) {call : Nat}
    (fresh : state.inFlight.get call = none) (root : JsString) (phase : UpdatePhase) :
    Phased state (state.goOn call (.update root phase)) := by
  have others : ∀ own flight, state.inFlight.Holds own flight →
      (state.inFlight.set call (.update root phase)).Holds own flight := by
    intro own flight old
    refine Table.holds_set.mpr (.inr ⟨?_, old⟩)
    rintro rfl
    exact Table.not_holds_of_get fresh flight old
  refine ⟨rfl, rfl, rfl, rfl, rfl, List.Subset.refl _, unique.set _ _, fun vault => ?_,
    fun own vault => ⟨fun also => ?_, others own _⟩, fun own vault phase also => ?_,
    fun own slug phase overtaken also => ?_⟩
  · constructor
    · rintro ⟨own, phase, also⟩
      rcases Table.holds_set.mp also with ⟨_, same⟩ | ⟨_, old⟩
      · cases same
      · exact ⟨own, phase, old⟩
    · rintro ⟨own, phase, old⟩
      exact ⟨own, phase, others own _ old⟩
  · rcases Table.holds_set.mp also with ⟨_, same⟩ | ⟨_, old⟩
    · cases same
    · exact old
  · rcases Table.holds_set.mp also with ⟨_, same⟩ | ⟨_, old⟩
    · cases same
    · exact ⟨phase, old, id⟩
  · rcases Table.holds_set.mp also with ⟨_, same⟩ | ⟨_, old⟩
    · cases same
    · exact ⟨phase, old, Iff.rfl, fun later fresh => absurd fresh later⟩

/-- A step that changes the creates in flight and nothing else. -/
theorem Kept.withFlights (kept : state.Kept) {flights : Table Nat RegistryFlight}
    (unique : flights.Unique)
    (deletes : ∀ call vault phase, flights.Holds call (.softDelete vault phase) ↔
      state.inFlight.Holds call (.softDelete vault phase))
    (creating : ∀ call slug phase overtaken, flights.Holds call (.create slug phase overtaken) →
      state.Creating slug phase overtaken)
    (claimers : ∀ call other slug phase otherPhase overtaken otherOvertaken,
      flights.Holds call (.create slug phase overtaken) →
        flights.Holds other (.create slug otherPhase otherOvertaken) →
          phase ≠ .findFolder → otherPhase ≠ .findFolder → call = other) :
    Kept { state with inFlight := flights } := by
  have deleting : ∀ vault, Deleting { state with inFlight := flights } vault ↔ state.Deleting vault :=
    fun vault => exists_congr fun call => exists_congr fun phase => deletes call vault phase
  have moved : ∀ vault, Moved { state with inFlight := flights } vault ↔ state.Moved vault :=
    fun vault => exists_congr fun call => deletes call vault .forget
  constructor
  · exact unique
  · exact kept.numbers
  · exact kept.listed
  · exact kept.registered
  · exact kept.known
  · exact fun vault member closed => (deleting vault).mpr (kept.closing vault member closed)
  · exact fun call vault phase held => kept.deleting call vault phase ((deletes _ _ _).mp held)
  · intro call vault held
    obtain ⟨member, alone⟩ := kept.moved call vault ((deletes _ _ _).mp held)
    exact ⟨member, fun other also => alone other ((deletes _ _ _).mp also)⟩
  · exact fun vault member unmoved => kept.folders vault member fun gone => unmoved ((moved vault).mpr gone)
  · intro vault member other also unmoved otherUnmoved
    exact kept.roots vault member other also (fun gone => unmoved ((moved vault).mpr gone))
      fun gone => otherUnmoved ((moved other).mpr gone)
  · intro call slug phase overtaken held
    obtain ⟨waits, claims⟩ := creating call slug phase overtaken held
    refine ⟨fun waiting => ?_, fun claiming => ?_⟩
    · obtain ⟨root, late⟩ := waits waiting
      refine ⟨fun vault member own => ?_, late⟩
      rw [deleting]
      exact root vault member own
    · obtain ⟨first, unregistered, root, folder⟩ := claims claiming
      exact ⟨first, unregistered,
        fun vault member unmoved => root vault member fun gone => unmoved ((moved vault).mpr gone),
        folder⟩
  · exact claimers
  · intro vault
    rw [deleting]
    exact kept.heard vault
  · exact kept.apart

/-- Another flight of a call that is no soft delete, before and after. -/
theorem softDelete_holds_set {call : Nat} {flight : RegistryFlight}
    (before : ∀ vault phase, ¬ state.inFlight.Holds call (.softDelete vault phase))
    (after : ∀ vault phase, flight ≠ .softDelete vault phase) (other : Nat) (vault : VaultInstance)
    (phase : DeletePhase) :
    (state.inFlight.set call flight).Holds other (.softDelete vault phase) ↔
      state.inFlight.Holds other (.softDelete vault phase) := by
  rw [Table.holds_set]
  constructor
  · rintro (⟨_, same⟩ | ⟨_, old⟩)
    · exact absurd same.symm (after vault phase)
    · exact old
  · intro old
    refine .inr ⟨?_, old⟩
    rintro rfl
    exact before vault phase old

/-- A create starts. -/
theorem kept_create (kept : state.Kept) {call : Nat} (fresh : state.inFlight.get call = none)
    {slug : JsString} (unknown : state.registry.instances.get slug = none) :
    (state.goOn call (.create slug .findFolder false)).Kept := by
  have vacant := Table.not_holds_of_get fresh
  refine kept.withFlights (kept.calls.set _ _)
    (softDelete_holds_set (fun vault phase => vacant _) nofun) ?_ ?_
  · intro other own phase overtaken held
    rcases Table.holds_set.mp held with ⟨_, same⟩ | ⟨_, old⟩
    · cases same
      refine ⟨fun _ => ⟨fun vault member same => ?_, nofun⟩, fun claiming => absurd rfl claiming⟩
      exact absurd same (InstanceMap.get_eq_none_iff.mp unknown vault member)
    · exact kept.creating other own phase overtaken old
  · intro first second own phase otherPhase overtaken otherOvertaken held also claiming otherClaiming
    rcases Table.holds_set.mp held with ⟨_, same⟩ | ⟨_, old⟩
    · cases same
      exact absurd rfl claiming
    · rcases Table.holds_set.mp also with ⟨_, same⟩ | ⟨_, otherOld⟩
      · cases same
        exact absurd rfl otherClaiming
      · exact kept.claimers _ _ _ _ _ _ _ old otherOld claiming otherClaiming

/-- A create finds its slot free. -/
theorem kept_findFolder (kept : state.Kept) {call : Nat} {slug : JsString} {overtaken : Bool}
    (held : state.inFlight.Holds call (.create slug .findFolder overtaken))
    (free : state.root slug ∉ state.folders)
    (alone : ∀ other otherOvertaken,
      ¬ state.inFlight.Holds other (.create slug .makeRoot otherOvertaken)) :
    (state.goOn call (.create slug .makeRoot overtaken)).Kept := by
  have own : ∀ flight, state.inFlight.Holds call flight → flight = .create slug .findFolder overtaken :=
    fun flight also => kept.calls.value_eq also held
  obtain ⟨root, late⟩ := (kept.creating _ _ _ _ held).1 rfl
  have unregistered : ∀ vault ∈ state.registry.instances, vault.slug ≠ slug := by
    intro vault member same
    obtain ⟨at_, live⟩ := root vault member same
    refine free ?_
    rw [← at_]
    exact kept.folders vault member fun ⟨other, moved⟩ => live ⟨other, .forget, moved⟩
  have first : overtaken = false := by
    by_contra late_
    obtain ⟨vault, member, same⟩ := late (by simpa using late_)
    exact unregistered vault member same
  have claims : state.Claims slug .makeRoot overtaken := by
    refine ⟨first, unregistered, fun vault member unmoved same => free ?_, fun later => absurd rfl later⟩
    rw [← same]
    exact kept.folders vault member unmoved
  have nobody : ∀ other phase otherOvertaken,
      state.inFlight.Holds other (.create slug phase otherOvertaken) → phase = .findFolder := by
    intro other phase otherOvertaken also
    by_contra claiming
    have other_ := (kept.creating _ _ _ _ also).2 claiming
    by_cases making : phase = .makeRoot
    · subst making
      exact alone other otherOvertaken also
    · exact free (other_.folder making)
  refine kept.withFlights (kept.calls.set _ _)
    (softDelete_holds_set (fun vault phase also => by cases own _ also) nofun) ?_ ?_
  · intro other otherSlug phase otherOvertaken also
    rcases Table.holds_set.mp also with ⟨_, same⟩ | ⟨_, old⟩
    · cases same
      exact ⟨nofun, fun _ => claims⟩
    · exact kept.creating other otherSlug phase otherOvertaken old
  · intro one two otherSlug phase otherPhase oneOvertaken twoOvertaken isOne isTwo claiming otherClaiming
    rcases Table.holds_set.mp isOne with ⟨rfl, same⟩ | ⟨_, old⟩
    · cases same
      rcases Table.holds_set.mp isTwo with ⟨rfl, _⟩ | ⟨_, otherOld⟩
      · rfl
      · exact absurd (nobody _ _ _ otherOld) otherClaiming
    · rcases Table.holds_set.mp isTwo with ⟨rfl, same⟩ | ⟨_, otherOld⟩
      · cases same
        exact absurd (nobody _ _ _ old) claiming
      · exact kept.claimers _ _ _ _ _ _ _ old otherOld claiming otherClaiming

/-- A step that changes the handlers and the subscriptions and nothing else. -/
theorem Kept.withRegistry (kept : state.Kept) {registry : LiveRegistry}
    (same : registry.instances = state.registry.instances)
    (heard : ∀ vault, vault ∈ registry.eventUnsubscribers ↔
      registry.eventHandlers ≠ [] ∧ vault ∈ state.registry.instances ∧ ¬ state.Deleting vault) :
    Kept { state with registry := registry } := by
  constructor
  · exact kept.calls
  · exact kept.numbers
  · rw [same]
    exact kept.listed
  · rw [same]
    exact kept.registered
  · exact kept.known
  · rw [same]
    exact kept.closing
  · exact kept.deleting
  · rw [same]
    exact kept.moved
  · rw [same]
    exact kept.folders
  · rw [same]
    exact kept.roots
  · intro call slug phase overtaken held
    obtain ⟨waits, claims⟩ := kept.creating call slug phase overtaken held
    refine ⟨fun waiting => ?_, fun claiming => ?_⟩
    · obtain ⟨root, late⟩ := waits waiting
      rw [← same] at root late
      exact ⟨root, late⟩
    · obtain ⟨first, unregistered, root, folder⟩ := claims claiming
      rw [← same] at unregistered root
      exact ⟨first, unregistered, root, folder⟩
  · exact kept.claimers
  · rw [same]
    exact heard
  · exact kept.apart

/-- An event handler is registered. -/
theorem kept_subscribe (kept : state.Kept) {handler : Nat}
    (live : (state.registry.eventHandlers.insert handler).length = 1 →
      ∀ vault ∈ state.registry.instances, ¬ state.Deleting vault) :
    Kept { state with registry := state.registry.onVaultEvent handler } := by
  refine kept.withRegistry LiveRegistry.instances_onVaultEvent fun vault => ?_
  rw [LiveRegistry.mem_onVaultEvent fun other heard => ((kept.heard other).mp heard).2.1,
    LiveRegistry.eventHandlers_onVaultEvent, kept.heard vault]
  have some_ : state.registry.eventHandlers.insert handler ≠ [] :=
    List.ne_nil_of_mem (List.mem_insert_self ..)
  constructor
  · rintro (⟨_, member⟩ | ⟨first, member⟩)
    · exact ⟨some_, member⟩
    · exact ⟨some_, member, live first vault member⟩
  · rintro ⟨_, member⟩
    by_cases none : state.registry.eventHandlers = []
    · refine .inr ⟨?_, member.1⟩
      rw [none]
      rfl
    · exact .inl ⟨none, member⟩

/-- An event handler is removed. -/
theorem kept_unsubscribe (kept : state.Kept) (handler : Nat) :
    Kept { state with registry := state.registry.offVaultEvent handler } := by
  unfold LiveRegistry.offVaultEvent
  dsimp only
  split
  · rename_i none
    refine kept.withRegistry rfl fun vault => ?_
    constructor
    · exact fun heard => absurd heard InstanceMap.not_mem_empty
    · exact fun heard => absurd none heard.1
  · rename_i some_
    refine kept.withRegistry rfl fun vault => ?_
    constructor
    · exact fun heard => ⟨some_, ((kept.heard vault).mp heard).2⟩
    · rintro ⟨_, live⟩
      refine (kept.heard vault).mpr ⟨?_, live⟩
      intro none
      rw [none] at some_
      exact some_ rfl

/-- Roots of different slugs differ. -/
theorem root_injective {slug other : JsString} (same : state.root slug = state.root other) :
    slug = other := by
  unfold root Segments.child at same
  split_ifs at same
  · exact same
  · exact (List.cons.inj (List.append_cancel_left same)).2

section Register

variable {call : Nat} {slug : JsString} {overtaken : Bool}

/-- The calls in flight beside a create that has returned. -/
theorem holds_register {other : Nat} {flight : RegistryFlight} :
    (state.register call slug overtaken).inFlight.Holds other flight ↔
      ∃ before, (other ≠ call ∧ state.inFlight.Holds other before) ∧
        before.overtake slug = flight := by
  refine Table.holds_mapValues.trans ?_
  simp only [Table.holds_delete]

/-- The soft deletes in flight do not change when a create returns. -/
theorem deletes_register (calls : state.inFlight.Unique)
    (held : state.inFlight.Holds call (.create slug .register overtaken)) {other : Nat}
    {vault : VaultInstance} {phase : DeletePhase} :
    (state.register call slug overtaken).inFlight.Holds other (.softDelete vault phase) ↔
      state.inFlight.Holds other (.softDelete vault phase) := by
  rw [holds_register]
  constructor
  · rintro ⟨before, ⟨_, old⟩, same⟩
    cases before with
    | create own before late => cases same
    | update root before => cases same
    | softDelete own before =>
        cases same
        exact old
  · intro old
    refine ⟨_, ⟨?_, old⟩, rfl⟩
    rintro rfl
    cases calls.value_eq old held

/-- A create in flight after another one has returned was in flight before, and is overtaken if it
is of the same slug. -/
theorem creates_register {other : Nat} {own : JsString} {phase : CreatePhase} {late : Bool}
    (also : (state.register call slug overtaken).inFlight.Holds other (.create own phase late)) :
    other ≠ call ∧ ∃ before, state.inFlight.Holds other (.create own phase before) ∧
      late = (before || own = slug) := by
  obtain ⟨before, ⟨apart, old⟩, same⟩ := holds_register.mp also
  cases before with
  | create other phase before =>
      cases same
      exact ⟨apart, before, old, rfl⟩
  | update root before => cases same
  | softDelete own before => cases same

theorem deleting_register (calls : state.inFlight.Unique)
    (held : state.inFlight.Holds call (.create slug .register overtaken)) (vault : VaultInstance) :
    (state.register call slug overtaken).Deleting vault ↔ state.Deleting vault :=
  exists_congr fun _ => exists_congr fun _ => deletes_register calls held

theorem moved_register (calls : state.inFlight.Unique)
    (held : state.inFlight.Holds call (.create slug .register overtaken)) (vault : VaultInstance) :
    (state.register call slug overtaken).Moved vault ↔ state.Moved vault :=
  exists_congr fun _ => deletes_register calls held

/-- The registered vaults are those before and the new one. -/
theorem instances_register
    (unregistered : ∀ vault ∈ state.registry.instances, vault.slug ≠ slug) (vault : VaultInstance) :
    vault ∈ (state.register call slug overtaken).registry.instances ↔
      vault = state.nextInstance slug ∨ vault ∈ state.registry.instances := by
  unfold register
  rw [LiveRegistry.instances_subscribeInstance, InstanceMap.mem_set]
  constructor
  · rintro (rfl | ⟨_, old⟩)
    · exact .inl rfl
    · exact .inr old
  · rintro (rfl | old)
    · exact .inl rfl
    · exact .inr ⟨unregistered vault old, old⟩

/-- The vault that is built next is not being deleted. -/
theorem Kept.live_nextInstance (kept : state.Kept) : ¬ state.Deleting (state.nextInstance slug) :=
  fun ⟨_, _, also⟩ => Nat.lt_irrefl _ (kept.numbers _ (kept.deleting _ _ _ also).1)

/-- The new vault has a root of its own. -/
theorem roots_register (kept : state.Kept)
    (held : state.inFlight.Holds call (.create slug .register overtaken)) :
    ∀ vault ∈ (state.register call slug overtaken).registry.instances,
      ∀ other ∈ (state.register call slug overtaken).registry.instances,
        ¬ (state.register call slug overtaken).Moved vault →
          ¬ (state.register call slug overtaken).Moved other → vault.root = other.root →
            vault = other := by
  obtain ⟨_, unregistered, root, _⟩ := (kept.creating _ _ _ _ held).2 nofun
  intro vault member other also unmoved otherUnmoved same
  rw [moved_register kept.calls held] at unmoved otherUnmoved
  rcases (instances_register unregistered vault).mp member with rfl | old
  · rcases (instances_register unregistered other).mp also with rfl | otherOld
    · rfl
    · exact absurd same.symm (root other otherOld otherUnmoved)
  · rcases (instances_register unregistered other).mp also with rfl | otherOld
    · exact absurd same (root vault old unmoved)
    · exact kept.roots vault old other otherOld unmoved otherUnmoved same

/-- What another create relies on while it waits. -/
theorem waits_register (kept : state.Kept)
    (held : state.inFlight.Holds call (.create slug .register overtaken)) {own : JsString}
    {before : Bool} (waits : state.Waits own before) :
    (state.register call slug overtaken).Waits own (before || own = slug) := by
  obtain ⟨_, unregistered, _, _⟩ := (kept.creating _ _ _ _ held).2 nofun
  obtain ⟨ownRoot, ownLate⟩ := waits
  refine ⟨fun vault member same => ?_, fun late => ?_⟩
  · rw [deleting_register kept.calls held]
    rcases (instances_register unregistered vault).mp member with rfl | listed
    · exact ⟨congrArg state.root same, kept.live_nextInstance⟩
    · exact ownRoot vault listed same
  · rcases Bool.or_eq_true_iff.mp late with was | same
    · obtain ⟨vault, member, same⟩ := ownLate was
      exact ⟨vault, (instances_register unregistered vault).mpr (.inr member), same⟩
    · exact ⟨_, (instances_register unregistered _).mpr (.inl rfl), (of_decide_eq_true same).symm⟩

/-- What a create of another slug relies on after it found its slot free. -/
theorem claims_register (kept : state.Kept)
    (held : state.inFlight.Holds call (.create slug .register overtaken)) {own : JsString}
    {phase : CreatePhase} {before : Bool} (different : own ≠ slug)
    (claims : state.Claims own phase before) :
    (state.register call slug overtaken).Claims own phase (before || own = slug) := by
  obtain ⟨_, unregistered, _, _⟩ := (kept.creating _ _ _ _ held).2 nofun
  obtain ⟨ownFirst, ownUnregistered, ownRoot, ownFolder⟩ := claims
  refine ⟨by simp [ownFirst, different], fun vault member => ?_, fun vault member unmoved => ?_,
    ownFolder⟩
  · rcases (instances_register unregistered vault).mp member with rfl | listed
    · exact fun same => different same.symm
    · exact ownUnregistered vault listed
  · rw [moved_register kept.calls held] at unmoved
    rcases (instances_register unregistered vault).mp member with rfl | listed
    · exact fun same => different (root_injective same).symm
    · exact ownRoot vault listed unmoved

/-- The events of the new vault are heard if there is a handler. -/
theorem heard_register (kept : state.Kept)
    (held : state.inFlight.Holds call (.create slug .register overtaken)) (vault : VaultInstance) :
    vault ∈ (state.register call slug overtaken).registry.eventUnsubscribers ↔
      (state.register call slug overtaken).registry.eventHandlers ≠ [] ∧
        vault ∈ (state.register call slug overtaken).registry.instances ∧
          ¬ (state.register call slug overtaken).Deleting vault := by
  obtain ⟨_, unregistered, _, _⟩ := (kept.creating _ _ _ _ held).2 nofun
  rw [deleting_register kept.calls held, instances_register unregistered]
  unfold register
  dsimp only
  rw [LiveRegistry.eventHandlers_subscribeInstance]
  dsimp only
  by_cases handled : state.registry.eventHandlers = []
  · rw [LiveRegistry.subscribeInstance, if_pos (.inl handled)]
    constructor
    · exact fun heard => absurd handled ((kept.heard vault).mp heard).1
    · exact fun heard => absurd handled heard.1
  · rw [LiveRegistry.mem_subscribeInstance, kept.heard vault]
    · constructor
      · rintro (rfl | ⟨_, old⟩)
        · exact ⟨handled, .inl rfl, kept.live_nextInstance⟩
        · exact ⟨handled, .inr old.1, old.2⟩
      · rintro ⟨_, rfl | old, still⟩
        · exact .inl rfl
        · exact .inr ⟨handled, old, still⟩
    · exact handled
    · intro other heard same
      exact absurd same (unregistered other ((kept.heard other).mp heard).2.1)

/-- A create registers its vault. -/
theorem kept_register (kept : state.Kept)
    (held : state.inFlight.Holds call (.create slug .register overtaken)) :
    (state.register call slug overtaken).Kept := by
  obtain ⟨first, unregistered, _, folder⟩ := (kept.creating _ _ _ _ held).2 nofun
  have instances := @instances_register state call slug overtaken unregistered
  have deletes := @deletes_register state call slug overtaken kept.calls held
  constructor
  · exact ((Table.within_delete _ _).unique kept.calls).mapValues _
  · intro vault member
    rcases List.mem_cons.mp member with rfl | old
    · exact Nat.lt_succ_self _
    · exact Nat.lt_succ_of_lt (kept.numbers vault old)
  · intro vault member
    rcases (instances vault).mp member with rfl | old
    · exact List.mem_cons_self
    · exact List.mem_cons_of_mem _ (kept.listed vault old)
  · intro vault member still
    rcases List.mem_cons.mp member with rfl | old
    · exact (instances _).mpr (.inl rfl)
    · exact (instances _).mpr (.inr (kept.registered vault old still))
  · exact fun vault closed => List.mem_cons_of_mem _ (kept.known vault closed)
  · intro vault member closed
    rw [deleting_register kept.calls held]
    rcases (instances vault).mp member with rfl | old
    · exact absurd (kept.numbers _ (kept.known _ closed)) (Nat.lt_irrefl _)
    · exact kept.closing vault old closed
  · intro other vault phase also
    obtain ⟨built, closed⟩ := kept.deleting other vault phase (deletes.mp also)
    exact ⟨List.mem_cons_of_mem _ built, closed⟩
  · intro other vault also
    obtain ⟨member, alone⟩ := kept.moved other vault (deletes.mp also)
    exact ⟨(instances vault).mpr (.inr member), fun third also => alone third (deletes.mp also)⟩
  · intro vault member unmoved
    rw [moved_register kept.calls held] at unmoved
    rcases (instances vault).mp member with rfl | old
    · exact folder nofun
    · exact kept.folders vault old unmoved
  · exact roots_register kept held
  · intro other own phase late also
    obtain ⟨apart, before, old, rfl⟩ := creates_register also
    obtain ⟨waits, claims⟩ := kept.creating other own phase before old
    refine ⟨fun waiting => waits_register kept held (waits waiting), fun claiming => ?_⟩
    refine claims_register kept held ?_ (claims claiming)
    rintro rfl
    exact apart (kept.claimers _ _ _ _ _ _ _ old held claiming nofun)
  · intro one two own phase otherPhase oneLate twoLate isOne isTwo claiming otherClaiming
    obtain ⟨_, oneBefore, oneOld, _⟩ := creates_register isOne
    obtain ⟨_, twoBefore, twoOld, _⟩ := creates_register isTwo
    exact kept.claimers _ _ _ _ _ _ _ oneOld twoOld claiming otherClaiming
  · exact heard_register kept held
  · change (state.bothOk || overtaken) = false
    rw [kept.apart, first]
    rfl

end Register

/-- A soft delete starts. -/
theorem kept_softDelete (kept : state.Kept) {call : Nat} (fresh : state.inFlight.get call = none)
    {id : JsString} (uncreated : ∀ other phase overtaken,
      ¬ state.inFlight.Holds other (.create id phase overtaken)) :
    (state.softDelete call id).Kept := by
  have vacant := Table.not_holds_of_get fresh
  unfold softDelete
  split
  · exact kept
  · rename_i vault found
    obtain ⟨member, own⟩ := InstanceMap.get_eq_some_iff.mp found
    set next : VaultSlots := { state.goOn call (.softDelete vault .closeManager) with
      registry := state.registry.unsubscribeInstance id } with same
    have others : ∀ other flight, state.inFlight.Holds other flight → next.inFlight.Holds other flight := by
      intro other flight old
      refine Table.holds_set.mpr (.inr ⟨?_, old⟩)
      rintro rfl
      exact vacant flight old
    have back : ∀ other flight, next.inFlight.Holds other flight →
        flight = .softDelete vault .closeManager ∨ state.inFlight.Holds other flight := by
      intro other flight also
      rcases Table.holds_set.mp also with ⟨_, new⟩ | ⟨_, old⟩
      · exact .inl new
      · exact .inr old
    have deleting : ∀ other, next.Deleting other ↔ other = vault ∨ state.Deleting other := by
      intro other
      constructor
      · rintro ⟨place, phase, also⟩
        rcases back _ _ also with new | old
        · cases new
          exact .inl rfl
        · exact .inr ⟨place, phase, old⟩
      · rintro (rfl | ⟨place, phase, old⟩)
        · exact ⟨call, .closeManager, Table.holds_set.mpr (.inl ⟨rfl, rfl⟩)⟩
        · exact ⟨place, phase, others _ _ old⟩
    have moves : ∀ place other, next.inFlight.Holds place (.softDelete other .forget) ↔
        state.inFlight.Holds place (.softDelete other .forget) := by
      intro place other
      constructor
      · intro also
        rcases back _ _ also with new | old
        · cases new
        · exact old
      · exact others _ _
    have moved : ∀ other, next.Moved other ↔ state.Moved other :=
      fun other => exists_congr fun place => moves place other
    have creates : ∀ place slug phase overtaken, next.inFlight.Holds place (.create slug phase overtaken) →
        state.inFlight.Holds place (.create slug phase overtaken) := by
      intro place slug phase overtaken also
      rcases back _ _ also with new | old
      · cases new
      · exact old
    constructor
    · exact kept.calls.set _ _
    · exact kept.numbers
    · exact kept.listed
    · exact kept.registered
    · exact kept.known
    · exact fun other listed closed => (deleting other).mpr (.inr (kept.closing other listed closed))
    · intro place other phase also
      rcases back _ _ also with new | old
      · cases new
        exact ⟨kept.listed vault member, fun later => absurd rfl later⟩
      · exact kept.deleting place other phase old
    · intro place other also
      obtain ⟨listed, alone⟩ := kept.moved place other ((moves _ _).mp also)
      exact ⟨listed, fun third also => alone third ((moves _ _).mp also)⟩
    · intro other listed unmoved
      rw [moved] at unmoved
      exact kept.folders other listed unmoved
    · intro one listed other also unmoved otherUnmoved
      rw [moved] at unmoved otherUnmoved
      exact kept.roots one listed other also unmoved otherUnmoved
    · intro place slug phase overtaken also
      have old := creates place slug phase overtaken also
      obtain ⟨waits, claims⟩ := kept.creating place slug phase overtaken old
      refine ⟨fun waiting => ?_, fun claiming => ?_⟩
      · obtain ⟨root, late⟩ := waits waiting
        refine ⟨fun other listed named => ?_, late⟩
        obtain ⟨at_, live⟩ := root other listed named
        refine ⟨at_, fun dying => ?_⟩
        rcases (deleting other).mp dying with rfl | was
        · rw [own] at named
          subst named
          exact uncreated _ _ _ old
        · exact live was
      · obtain ⟨first, unregistered, root, folder⟩ := claims claiming
        refine ⟨first, unregistered, fun other listed unmoved => ?_, folder⟩
        rw [moved] at unmoved
        exact root other listed unmoved
    · exact fun one two slug phase otherPhase overtaken otherOvertaken isOne isTwo =>
        kept.claimers one two slug phase otherPhase overtaken otherOvertaken
          (creates _ _ _ _ isOne) (creates _ _ _ _ isTwo)
    · intro other
      rw [deleting]
      refine InstanceMap.mem_delete.trans ?_
      rw [kept.heard other]
      constructor
      · rintro ⟨different, handled, listed, live⟩
        refine ⟨handled, listed, ?_⟩
        rintro (rfl | was)
        · exact different own
        · exact live was
      · rintro ⟨handled, listed, live⟩
        refine ⟨fun named => live (.inl ?_), handled, listed, fun was => live (.inr was)⟩
        exact InstanceMap.eq_of_slug_eq listed member (named.trans own.symm)
    · exact kept.apart

section Delete

variable {call : Nat} {vault : VaultInstance} {before phase : DeletePhase}

/-- What is being deleted does not change while a soft delete goes on. -/
theorem deleting_set (unique : state.inFlight.Unique)
    (held : state.inFlight.Holds call (.softDelete vault before)) (other : VaultInstance) :
    (∃ place own, (state.inFlight.set call (.softDelete vault phase)).Holds place
      (.softDelete other own)) ↔ state.Deleting other := by
  constructor
  · rintro ⟨place, own, also⟩
    rcases Table.holds_set.mp also with ⟨_, same⟩ | ⟨_, old⟩
    · cases same
      exact ⟨call, before, held⟩
    · exact ⟨place, own, old⟩
  · rintro ⟨place, own, old⟩
    by_cases same : place = call
    · subst same
      cases unique.value_eq old held
      exact ⟨place, phase, Table.holds_set.mpr (.inl ⟨rfl, rfl⟩)⟩
    · exact ⟨place, own, Table.holds_set.mpr (.inr ⟨same, old⟩)⟩

/-- The creates in flight do not change while a soft delete goes on. -/
theorem creates_of_set {place : Nat} {slug : JsString} {own : CreatePhase} {overtaken : Bool}
    (also : (state.inFlight.set call (.softDelete vault phase)).Holds place
      (.create slug own overtaken)) :
    state.inFlight.Holds place (.create slug own overtaken) := by
  rcases Table.holds_set.mp also with ⟨_, same⟩ | ⟨_, old⟩
  · cases same
  · exact old

/-- A soft delete closes the manager. -/
theorem kept_closeManager (kept : state.Kept)
    (held : state.inFlight.Holds call (.softDelete vault .closeManager)) :
    Kept { state.goOn call (.softDelete vault .makeTrash) with closed := vault :: state.closed } := by
  set next : VaultSlots :=
    { state.goOn call (.softDelete vault .makeTrash) with closed := vault :: state.closed }
  have deleting : ∀ other, next.Deleting other ↔ state.Deleting other := deleting_set kept.calls held
  have moves : ∀ place other, next.inFlight.Holds place (.softDelete other .forget) ↔
      state.inFlight.Holds place (.softDelete other .forget) := by
    intro place other
    refine Table.holds_set.trans ?_
    constructor
    · rintro (⟨_, same⟩ | ⟨_, old⟩)
      · cases same
      · exact old
    · intro old
      refine .inr ⟨?_, old⟩
      rintro rfl
      cases kept.calls.value_eq old held
  have moved : ∀ other, next.Moved other ↔ state.Moved other :=
    fun other => exists_congr fun place => moves place other
  have built := (kept.deleting call vault .closeManager held).1
  constructor
  · exact kept.calls.set _ _
  · exact kept.numbers
  · exact kept.listed
  · exact fun other listed open_ => kept.registered other listed fun was =>
      open_ (List.mem_cons_of_mem _ was)
  · intro other closed
    rcases List.mem_cons.mp closed with rfl | was
    · exact built
    · exact kept.known other was
  · intro other listed closed
    rw [deleting]
    rcases List.mem_cons.mp closed with rfl | was
    · exact ⟨call, .closeManager, held⟩
    · exact kept.closing other listed was
  · intro place other own also
    rcases Table.holds_set.mp also with ⟨_, same⟩ | ⟨_, old⟩
    · cases same
      exact ⟨built, fun _ => List.mem_cons_self⟩
    · obtain ⟨known, closed⟩ := kept.deleting place other own old
      exact ⟨known, fun later => List.mem_cons_of_mem _ (closed later)⟩
  · intro place other also
    obtain ⟨listed, alone⟩ := kept.moved place other ((moves _ _).mp also)
    exact ⟨listed, fun third also => alone third ((moves _ _).mp also)⟩
  · intro other listed unmoved
    rw [moved] at unmoved
    exact kept.folders other listed unmoved
  · intro one listed other also unmoved otherUnmoved
    rw [moved] at unmoved otherUnmoved
    exact kept.roots one listed other also unmoved otherUnmoved
  · intro place slug own overtaken also
    obtain ⟨waits, claims⟩ := kept.creating place slug own overtaken (creates_of_set also)
    refine ⟨fun waiting => ?_, fun claiming => ?_⟩
    · obtain ⟨root, late⟩ := waits waiting
      refine ⟨fun other listed named => ?_, late⟩
      rw [deleting]
      exact root other listed named
    · obtain ⟨first, unregistered, root, folder⟩ := claims claiming
      refine ⟨first, unregistered, fun other listed unmoved => ?_, folder⟩
      rw [moved] at unmoved
      exact root other listed unmoved
  · exact fun one two slug own otherOwn overtaken otherOvertaken isOne isTwo =>
      kept.claimers one two slug own otherOwn overtaken otherOvertaken (creates_of_set isOne)
        (creates_of_set isTwo)
  · intro other
    rw [deleting]
    exact kept.heard other
  · exact kept.apart

/-- A soft delete moves the folder away. -/
theorem kept_renameRoot (kept : state.Kept)
    (held : state.inFlight.Holds call (.softDelete vault .renameRoot))
    (member : vault ∈ state.registry.instances)
    (unmoved : ∀ other, ¬ state.inFlight.Holds other (.softDelete vault .forget)) :
    Kept { state.goOn call (.softDelete vault .forget) with
      folders := state.folders.filter (· ≠ vault.root) } := by
  set next : VaultSlots := { state.goOn call (.softDelete vault .forget) with
    folders := state.folders.filter (· ≠ vault.root) }
  have deleting : ∀ other, next.Deleting other ↔ state.Deleting other := deleting_set kept.calls held
  have stays : ∀ root, root ∈ state.folders → root ≠ vault.root → root ∈ next.folders :=
    fun root listed different => List.mem_filter.mpr ⟨listed, by simpa using different⟩
  have moves : ∀ place other, next.inFlight.Holds place (.softDelete other .forget) ↔
      place = call ∧ other = vault ∨ state.inFlight.Holds place (.softDelete other .forget) := by
    intro place other
    refine Table.holds_set.trans ?_
    constructor
    · rintro (⟨rfl, same⟩ | ⟨_, old⟩)
      · cases same
        exact .inl ⟨rfl, rfl⟩
      · exact .inr old
    · rintro (⟨rfl, rfl⟩ | old)
      · exact .inl ⟨rfl, rfl⟩
      · refine .inr ⟨?_, old⟩
        rintro rfl
        cases kept.calls.value_eq old held
  have moved : ∀ other, next.Moved other ↔ other = vault ∨ state.Moved other := by
    intro other
    constructor
    · rintro ⟨place, also⟩
      rcases (moves place other).mp also with ⟨_, same⟩ | old
      · exact .inl same
      · exact .inr ⟨place, old⟩
    · rintro (rfl | ⟨place, old⟩)
      · exact ⟨call, (moves _ _).mpr (.inl ⟨rfl, rfl⟩)⟩
      · exact ⟨place, (moves _ _).mpr (.inr old)⟩
  have still : ¬ state.Moved vault := fun ⟨other, also⟩ => unmoved other also
  constructor
  · exact kept.calls.set _ _
  · exact kept.numbers
  · exact kept.listed
  · exact kept.registered
  · exact kept.known
  · exact fun other listed closed => (deleting other).mpr (kept.closing other listed closed)
  · intro place other own also
    rcases Table.holds_set.mp also with ⟨_, same⟩ | ⟨_, old⟩
    · cases same
      obtain ⟨known, closed⟩ := kept.deleting call vault .renameRoot held
      exact ⟨known, fun _ => closed nofun⟩
    · exact kept.deleting place other own old
  · intro place other also
    rcases (moves place other).mp also with ⟨rfl, rfl⟩ | old
    · refine ⟨member, fun third also => ?_⟩
      rcases (moves third other).mp also with ⟨same, _⟩ | was
      · exact same
      · exact absurd was (unmoved third)
    · obtain ⟨listed, alone⟩ := kept.moved place other old
      refine ⟨listed, fun third also => ?_⟩
      rcases (moves third other).mp also with ⟨_, rfl⟩ | was
      · exact absurd old (unmoved place)
      · exact alone third was
  · intro other listed remains
    rw [moved, not_or] at remains
    refine stays _ (kept.folders other listed remains.2) fun same => remains.1 ?_
    exact kept.roots other listed vault member remains.2 still same
  · intro one listed other also remains otherRemains
    rw [moved, not_or] at remains otherRemains
    exact kept.roots one listed other also remains.2 otherRemains.2
  · intro place slug own overtaken also
    obtain ⟨waits, claims⟩ := kept.creating place slug own overtaken (creates_of_set also)
    refine ⟨fun waiting => ?_, fun claiming => ?_⟩
    · obtain ⟨root, late⟩ := waits waiting
      refine ⟨fun other listed named => ?_, late⟩
      rw [deleting]
      exact root other listed named
    · obtain ⟨first, unregistered, root, folder⟩ := claims claiming
      refine ⟨first, unregistered, fun other listed remains => ?_, fun later => ?_⟩
      · rw [moved, not_or] at remains
        exact root other listed remains.2
      · exact stays _ (folder later) fun same => root vault member still same.symm
  · exact fun one two slug own otherOwn overtaken otherOvertaken isOne isTwo =>
      kept.claimers one two slug own otherOwn overtaken otherOvertaken (creates_of_set isOne)
        (creates_of_set isTwo)
  · intro other
    rw [deleting]
    exact kept.heard other
  · exact kept.apart

/-- A soft delete returns: when it has moved the folder away the vault is dropped, and else another
soft delete has moved the folder or has dropped the vault. -/
theorem Kept.returned (kept : state.Kept) (held : state.inFlight.Holds call (.softDelete vault phase))
    {instances : InstanceMap}
    (left : ∀ other, other ∈ instances ↔
      other ∈ state.registry.instances ∧ (phase = .forget → other ≠ vault))
    (done : phase = .forget ∨ vault ∉ state.registry.instances ∨ state.Moved vault) :
    Kept { state.finish call with registry := { state.registry with instances := instances } } := by
  set next : VaultSlots :=
    { state.finish call with registry := { state.registry with instances := instances } }
  have flights : ∀ place flight, next.inFlight.Holds place flight ↔
      place ≠ call ∧ state.inFlight.Holds place flight := fun _ _ => Table.holds_delete
  have apart : ∀ place other own, state.inFlight.Holds place (.softDelete other own) →
      other ≠ vault → next.inFlight.Holds place (.softDelete other own) := by
    intro place other own old different
    refine (flights _ _).mpr ⟨?_, old⟩
    rintro rfl
    cases kept.calls.value_eq old held
    exact different rfl
  have moved : ∀ other ∈ instances, next.Moved other ↔ state.Moved other := by
    intro other listed
    constructor
    · rintro ⟨place, also⟩
      exact ⟨place, ((flights _ _).mp also).2⟩
    · rintro ⟨place, old⟩
      refine ⟨place, (flights _ _).mpr ⟨?_, old⟩⟩
      rintro rfl
      cases kept.calls.value_eq old held
      exact ((left _).mp listed).2 rfl rfl
  have deleting : ∀ other ∈ instances, next.Deleting other ↔ state.Deleting other := by
    intro other listed
    constructor
    · rintro ⟨place, own, also⟩
      exact ⟨place, own, ((flights _ _).mp also).2⟩
    · rintro ⟨place, own, old⟩
      by_cases same : other = vault
      · subst same
        obtain ⟨member, kept_⟩ := (left other).mp listed
        rcases done with forgot | dropped | away
        · exact absurd rfl (kept_ forgot)
        · exact absurd member dropped
        · obtain ⟨third, also⟩ := (moved other listed).mpr away
          exact ⟨third, .forget, also⟩
      · exact ⟨place, own, apart place other own old same⟩
  constructor
  · exact (Table.within_delete _ _).unique kept.calls
  · exact kept.numbers
  · exact fun other listed => kept.listed other ((left other).mp listed).1
  · intro other built open_
    refine (left other).mpr ⟨kept.registered other built open_, ?_⟩
    rintro rfl rfl
    exact open_ ((kept.deleting call _ .forget held).2 nofun)
  · exact kept.known
  · exact fun other listed closed =>
      (deleting other listed).mpr (kept.closing other ((left other).mp listed).1 closed)
  · exact fun place other own also => kept.deleting place other own ((flights _ _).mp also).2
  · intro place other also
    obtain ⟨different, old⟩ := (flights _ _).mp also
    obtain ⟨member, alone⟩ := kept.moved place other old
    refine ⟨(left other).mpr ⟨member, ?_⟩, fun third also => alone third ((flights _ _).mp also).2⟩
    rintro rfl rfl
    exact different (alone call held).symm
  · intro other listed unmoved
    rw [moved other listed] at unmoved
    exact kept.folders other ((left other).mp listed).1 unmoved
  · intro one listed other also unmoved otherUnmoved
    rw [moved _ listed] at unmoved
    rw [moved _ also] at otherUnmoved
    exact kept.roots one ((left one).mp listed).1 other ((left other).mp also).1 unmoved otherUnmoved
  · intro place slug own overtaken also
    obtain ⟨waits, claims⟩ := kept.creating place slug own overtaken ((flights _ _).mp also).2
    refine ⟨fun waiting => ?_, fun claiming => ?_⟩
    · obtain ⟨root, late⟩ := waits waiting
      refine ⟨fun other listed named => ?_, fun was => ?_⟩
      · rw [deleting other listed]
        exact root other ((left other).mp listed).1 named
      · obtain ⟨other, member, named⟩ := late was
        refine ⟨other, (left other).mpr ⟨member, ?_⟩, named⟩
        rintro - rfl
        exact (root other member named).2 ⟨call, phase, held⟩
    · obtain ⟨first, unregistered, root, folder⟩ := claims claiming
      refine ⟨first, fun other listed => unregistered other ((left other).mp listed).1,
        fun other listed unmoved => ?_, folder⟩
      rw [moved other listed] at unmoved
      exact root other ((left other).mp listed).1 unmoved
  · exact fun one two slug own otherOwn overtaken otherOvertaken isOne isTwo =>
      kept.claimers one two slug own otherOwn overtaken otherOvertaken ((flights _ _).mp isOne).2
        ((flights _ _).mp isTwo).2
  · intro other
    refine (kept.heard other).trans ?_
    constructor
    · rintro ⟨handled, member, live⟩
      have listed : other ∈ instances := by
        refine (left other).mpr ⟨member, ?_⟩
        rintro - rfl
        exact live ⟨call, phase, held⟩
      exact ⟨handled, listed, fun dying => live ((deleting other listed).mp dying)⟩
    · rintro ⟨handled, listed, live⟩
      exact ⟨handled, ((left other).mp listed).1,
        fun dying => live ((deleting other listed).mpr dying)⟩
  · exact kept.apart

end Delete

variable {call : Nat}

/-- A step of a create. -/
theorem kept_advance_create (kept : state.Kept) {slug : JsString} {phase : CreatePhase}
    {overtaken : Bool} (held : state.inFlight.Holds call (.create slug phase overtaken))
    (alone : phase = .findFolder → ∀ other otherOvertaken,
      ¬ state.inFlight.Holds other (.create slug .makeRoot otherOvertaken))
    (stepped : state.advance call (.create slug phase overtaken) = some next) : next.Kept := by
  have added : state.folders ⊆ state.root slug :: state.folders := List.subset_cons_self _ _
  cases phase with
  | findFolder =>
      rw [advance] at stepped
      split at stepped
      · cases stepped
        refine (phased_finish kept.calls fun vault own also => ?_).kept kept
        cases kept.calls.value_eq also held
      · rename_i free
        cases stepped
        exact kept_findFolder kept held free (alone rfl)
  | makeRoot =>
      cases stepped
      refine (phased_goOn kept.calls held added ?_).kept kept
      exact ⟨rfl, rfl, by decide, fun _ _ => List.mem_cons_self⟩
  | makeDirectory =>
      cases stepped
      refine (phased_goOn kept.calls held added ?_).kept kept
      exact ⟨rfl, rfl, by decide, fun _ => nofun⟩
  | writeIdentity =>
      rw [advance] at stepped
      split at stepped
      · cases stepped
        refine (phased_goOn kept.calls held (List.Subset.refl _) ?_).kept kept
        exact ⟨rfl, rfl, by decide, fun _ => nofun⟩
      · cases stepped
  | seed =>
      cases stepped
      refine (phased_goOn kept.calls held (List.Subset.refl _) ?_).kept kept
      exact ⟨rfl, rfl, by decide, fun _ => nofun⟩
  | register =>
      cases stepped
      exact kept_register kept held

/-- A step of an update. -/
theorem kept_advance_update (kept : state.Kept) {root : JsString} {phase : UpdatePhase}
    (held : state.inFlight.Holds call (.update root phase))
    (stepped : state.advance call (.update root phase) = some next) : next.Kept := by
  cases phase with
  | makeDirectory =>
      cases stepped
      refine (phased_goOn kept.calls held (List.subset_cons_self _ _) ?_).kept kept
      exact trivial
  | writeIdentity =>
      rw [advance] at stepped
      split at stepped
      · cases stepped
        refine (phased_goOn kept.calls held (List.Subset.refl _) ?_).kept kept
        exact trivial
      · cases stepped
  | change =>
      cases stepped
      refine (phased_finish kept.calls fun vault own also => ?_).kept kept
      cases kept.calls.value_eq also held

/-- A step of a soft delete. -/
theorem kept_advance_softDelete (kept : state.Kept) {vault : VaultInstance} {phase : DeletePhase}
    (held : state.inFlight.Holds call (.softDelete vault phase))
    (alone : phase = .renameRoot → vault ∈ state.registry.instances ∧
      ∀ other, ¬ state.inFlight.Holds other (.softDelete vault .forget))
    (stepped : state.advance call (.softDelete vault phase) = some next) : next.Kept := by
  cases phase with
  | closeManager =>
      cases stepped
      exact kept_closeManager kept held
  | makeTrash =>
      cases stepped
      refine (phased_goOn kept.calls held (List.Subset.refl _) ?_).kept kept
      exact ⟨rfl, by decide, by decide, by decide⟩
  | chooseDestination =>
      cases stepped
      refine (phased_goOn kept.calls held (List.Subset.refl _) ?_).kept kept
      exact ⟨rfl, by decide, by decide, by decide⟩
  | renameRoot =>
      rw [advance] at stepped
      split at stepped
      · cases stepped
        exact kept_renameRoot kept held (alone rfl).1 (alone rfl).2
      · cases stepped
  | forget =>
      cases stepped
      refine kept.returned held (fun other => ?_) (.inl rfl)
      rw [InstanceMap.mem_delete]
      have member := (kept.moved call vault held).1
      constructor
      · rintro ⟨different, listed⟩
        refine ⟨listed, ?_⟩
        rintro - rfl
        exact different rfl
      · rintro ⟨listed, different⟩
        exact ⟨fun same => different rfl (InstanceMap.eq_of_slug_eq listed member same), listed⟩

variable {slugger : Slugger}

/-- **One step.** A step under the condition keeps the registry in order. -/
theorem kept_step {label : SlotLabel} (disjoint : Disjoint state label)
    (stepped : (machine slugger).step state label = some next) (kept : state.Kept) : next.Kept := by
  have begun : ∀ {call : Nat} {started : VaultSlots}, state.begin call started = some next →
      (state.inFlight.get call = none → started.Kept) → next.Kept := by
    intro call started began step
    unfold begin at began
    split at began
    · cases began
    · rename_i vacant
      cases began
      exact step (by simpa using vacant)
  cases label with
  | create call name slug =>
      refine begun stepped fun fresh => ?_
      unfold create
      split_ifs with blank bad known
      · exact kept
      · exact kept
      · exact kept
      · exact kept_create kept fresh (by simpa using known)
  | rename call id name =>
      refine begun stepped fun fresh => ?_
      unfold rename
      split
      · exact kept
      · split
        · exact kept
        · exact (phased_update kept.calls fresh _ _).kept kept
  | setMetadata call id input =>
      refine begun stepped fun fresh => ?_
      unfold setMetadata
      split
      · exact kept
      · split
        · exact kept
        · exact (phased_update kept.calls fresh _ _).kept kept
  | softDelete call id =>
      refine begun stepped fun fresh => ?_
      refine kept_softDelete kept fresh fun other phase overtaken held => ?_
      have none := disjoint _ held
      simp [RegistryFlight.creates] at none
  | subscribe handler =>
      cases stepped
      refine kept_subscribe kept fun first vault member => ?_
      rintro ⟨other, phase, held⟩
      have none := disjoint first vault (InstanceMap.mem_values.mpr member) _ held
      simp [RegistryFlight.deletes] at none
  | unsubscribe handler =>
      cases stepped
      exact kept_unsubscribe kept handler
  | advance call =>
      obtain ⟨flight, found, advanced⟩ := Option.bind_eq_some_iff.mp stepped
      have held := Table.holds_of_get found
      have alone := disjoint flight found
      cases flight with
      | create slug phase overtaken =>
          refine kept_advance_create kept held ?_ advanced
          rintro rfl other late also
          exact alone _ also late (by cases late <;> simp) rfl
      | update root phase => exact kept_advance_update kept held advanced
      | softDelete vault phase =>
          refine kept_advance_softDelete kept held ?_ advanced
          rintro rfl
          exact ⟨alone.1, fun other also => alone.2 _ also rfl⟩
  | fail call =>
      obtain ⟨flight, found, failed⟩ := Option.bind_eq_some_iff.mp stepped
      have held := Table.holds_of_get found
      have alone := disjoint flight found
      split at failed
      · rename_i fails
        cases failed
        cases flight with
        | create slug phase overtaken =>
            refine (phased_finish kept.calls fun vault own also => ?_).kept kept
            cases kept.calls.value_eq also held
        | update root phase =>
            refine (phased_finish kept.calls fun vault own also => ?_).kept kept
            cases kept.calls.value_eq also held
        | softDelete vault phase =>
            have early : phase ≠ .forget := by
              rintro rfl
              cases fails
            refine kept.returned held (fun other => ⟨fun listed => ⟨listed, fun forgot => absurd forgot early⟩,
              fun listed => listed.1⟩) (.inr ?_)
            rcases alone with dropped | ⟨⟨other, stored⟩, listed, rfl⟩
            · exact .inl dropped
            · exact .inr ⟨other, listed⟩
      · cases failed

/-- **One vault per slug.** In a run from a loaded registry whose steps overlap only as the
condition says, creates of a slug that overlap do not both return ok, every live vault has the
one manager that is open, which is the one in the registry, and exactly the live instances are
heard. -/
theorem one_vault_per_slug (loaded : state.Loaded) {labels : List SlotLabel}
    (run : (machine slugger).Run Disjoint state labels next) : next.OneVaultPerSlug :=
  (run.invariant (fun _ _ _ disjoint stepped kept => kept_step disjoint stepped kept)
    loaded.kept).oneVaultPerSlug

/-- A home without vaults. -/
def emptyHome : VaultSlots := ⟨units "/kb/vaults", ⟨.empty, [], .empty⟩, [], [], [], .empty, false⟩

theorem loaded_emptyHome : emptyHome.Loaded where
  silent := rfl
  unheard _ := InstanceMap.not_mem_empty
  built _ := ⟨fun member => absurd member List.not_mem_nil,
    fun member => absurd member InstanceMap.not_mem_empty⟩
  numbers _ member := absurd member List.not_mem_nil
  open_ := rfl
  roots _ member := absurd member InstanceMap.not_mem_empty
  folders _ member := absurd member InstanceMap.not_mem_empty
  idle := rfl
  apart := rfl

/-- Two creates of a slug overlap after the first one has made the folder; then the vault is
soft-deleted. -/
def createsInTurn : List SlotLabel :=
  [.subscribe 0, .create 0 (units "Notes") (units "notes"), .create 1 (units "More") (units "notes"),
    .advance 0, .advance 0, .advance 1, .advance 0, .advance 0, .advance 0, .advance 0,
    .softDelete 2 (units "notes"), .advance 2, .advance 2, .advance 2, .advance 2]

/-- The second create is refused, and the vault whose folder was moved is not heard. -/
theorem one_vault_per_slug_in_turn :
    ∃ target, (machine Slugger.plain).Run Disjoint emptyHome createsInTurn target ∧
      (target.built.length, target.closed.length) = (1, 1) ∧ target.OneVaultPerSlug := by
  obtain ⟨target, run, seen⟩ : ∃ target,
      (machine Slugger.plain).Run Disjoint emptyHome createsInTurn target ∧
        (target.built.length, target.closed.length) = (1, 1) :=
    Machine.evaluate_view (by decide +kernel)
  exact ⟨target, run, seen, one_vault_per_slug loaded_emptyHome run⟩

/-- Two creates of a slug that both find it free. -/
def overlappingCreates : List SlotLabel :=
  [.create 0 (units "Notes") (units "notes"), .create 1 (units "More") (units "notes"), .advance 0,
    .advance 1, .advance 0, .advance 1, .advance 0, .advance 1, .advance 0, .advance 1, .advance 0,
    .advance 1, .advance 0, .advance 1]

/-- The first handler is registered while a vault is being deleted. -/
def lateSubscription : List SlotLabel :=
  [.create 0 (units "Notes") (units "notes"), .advance 0, .advance 0, .advance 0, .advance 0,
    .advance 0, .advance 0, .softDelete 1 (units "notes"), .subscribe 0, .advance 1, .advance 1,
    .advance 1, .advance 1, .advance 1]

/-- Both creates return ok and leave two open managers on one root; and after a late subscription
the registry goes on listening to a vault that was deleted. -/
theorem two_vaults_of_one_slug :
    (∃ target, (machine Slugger.plain).Run (fun _ _ => True) emptyHome overlappingCreates target ∧
      (target.bothOk, target.built.map (·.root), target.closed) =
        (true, [units "/kb/vaults/notes", units "/kb/vaults/notes"], []) ∧
        ¬ target.OneVaultPerSlug) ∧
    ∃ target, (machine Slugger.plain).Run (fun _ _ => True) emptyHome lateSubscription target ∧
      (target.registry.instances.values, target.registry.eventUnsubscribers.values) =
        ([], [⟨0, units "notes", units "/kb/vaults/notes"⟩]) ∧
        ¬ target.OneVaultPerSlug := by
  constructor
  · obtain ⟨target, run, seen⟩ : ∃ target,
        (machine Slugger.plain).Run (fun _ _ => True) emptyHome overlappingCreates target ∧
          (target.bothOk, target.built.map (·.root), target.closed) =
            (true, [units "/kb/vaults/notes", units "/kb/vaults/notes"], []) :=
      Machine.evaluate_view (by decide +kernel)
    refine ⟨target, run, seen, fun ordered => ?_⟩
    have both := (Prod.mk.inj seen).1
    rw [ordered.creates] at both
    cases both
  · obtain ⟨target, run, seen⟩ : ∃ target,
        (machine Slugger.plain).Run (fun _ _ => True) emptyHome lateSubscription target ∧
          (target.registry.instances.values, target.registry.eventUnsubscribers.values,
            target.registry.eventHandlers) =
              ([], [⟨0, units "notes", units "/kb/vaults/notes"⟩], [0]) :=
      Machine.evaluate_view (by decide +kernel)
    obtain ⟨dropped, rest⟩ := Prod.mk.inj seen
    obtain ⟨subscribed, handlers⟩ := Prod.mk.inj rest
    refine ⟨target, run, by rw [dropped, subscribed], fun ordered => ?_⟩
    have heard := InstanceMap.mem_values.mp (by rw [subscribed]; exact List.mem_cons_self)
    have silent := (ordered.subscribed ⟨0, units "notes", units "/kb/vaults/notes"⟩).2 fun live => by
      have member := InstanceMap.mem_values.mpr live.1
      rw [dropped] at member
      cases member
    rw [LiveRegistry.receivers_eq, if_pos heard, handlers] at silent
    cases silent

end VaultSlots

end Kb1Daemon
