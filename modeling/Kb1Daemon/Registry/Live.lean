import Kb1Daemon.Foundation.JsString
import Kb1Daemon.Foundation.Table

/-! # The live registry

The registry keeps one instance for a slug and, while there are event handlers, one subscription
for a slug. Both are maps from slugs to instances that have the slug as their own
(`InstanceMap`), so what they hold is described by the instances in them.
-/

namespace Kb1Daemon

/-- A vault that was built: instances are told apart by their numbers. -/
structure VaultInstance where
  number : Nat
  slug : JsString
  root : JsString
  deriving DecidableEq, Repr

/-- A map from slugs to instances with that slug. -/
structure InstanceMap where
  table : Table JsString VaultInstance
  unique : table.Unique
  keyed : ∀ slug vault, table.Holds slug vault → vault.slug = slug
  deriving DecidableEq

namespace InstanceMap

instance : Membership VaultInstance InstanceMap where
  mem map vault := map.table.Holds vault.slug vault

instance (vault : VaultInstance) (map : InstanceMap) : Decidable (vault ∈ map) :=
  inferInstanceAs (Decidable ((vault.slug, vault) ∈ map.table.entries))

/-- The map without instances. -/
def empty : InstanceMap := ⟨.empty, Table.unique_empty, fun _ _ held => absurd held List.not_mem_nil⟩

def get (map : InstanceMap) (slug : JsString) : Option VaultInstance := map.table.get slug

def values (map : InstanceMap) : List VaultInstance := map.table.entries.map Prod.snd

/-- Set the instance of its slug. -/
def set (map : InstanceMap) (vault : VaultInstance) : InstanceMap where
  table := map.table.set vault.slug vault
  unique := map.unique.set _ _
  keyed := by
    intro slug other held
    rcases Table.holds_set.mp held with ⟨same, rfl⟩ | ⟨_, old⟩
    · exact same.symm
    · exact map.keyed slug other old

def delete (map : InstanceMap) (slug : JsString) : InstanceMap where
  table := map.table.delete slug
  unique := (Table.within_delete _ _).unique map.unique
  keyed slug other held := map.keyed slug other (Table.holds_delete.mp held).2

variable {map : InstanceMap} {vault other : VaultInstance} {slug : JsString}

/-- The empty map has no vault. -/
theorem not_mem_empty : vault ∉ empty := List.not_mem_nil

/-- The values are the vaults. -/
theorem mem_values : vault ∈ map.values ↔ vault ∈ map := by
  unfold values
  rw [List.mem_map]
  constructor
  · rintro ⟨⟨slug, stored⟩, held, rfl⟩
    rw [← map.keyed slug stored held] at held
    exact held
  · intro member
    exact ⟨_, member, rfl⟩

theorem get_eq_some_iff : map.get slug = some vault ↔ vault ∈ map ∧ vault.slug = slug := by
  constructor
  · intro found
    have held := Table.holds_of_get found
    have same := map.keyed _ _ held
    exact ⟨by rwa [← same] at held, same⟩
  · rintro ⟨member, rfl⟩
    exact map.unique.get_eq member

theorem get_eq_none_iff : map.get slug = none ↔ ∀ vault ∈ map, vault.slug ≠ slug := by
  constructor
  · rintro absent vault member rfl
    exact Table.not_holds_of_get absent vault member
  · intro absent
    cases found : map.get slug with
    | none => rfl
    | some vault =>
        obtain ⟨member, same⟩ := get_eq_some_iff.mp found
        exact absurd same (absent vault member)

/-- No two vaults have one slug. -/
theorem eq_of_slug_eq (member : vault ∈ map) (also : other ∈ map) (same : vault.slug = other.slug) :
    vault = other := by
  have held : map.table.Holds other.slug vault := by rwa [← same]
  exact map.unique.value_eq held also

theorem mem_set : other ∈ map.set vault ↔ other = vault ∨ other.slug ≠ vault.slug ∧ other ∈ map := by
  refine Table.holds_set.trans ?_
  constructor
  · rintro (⟨_, rfl⟩ | old)
    · exact .inl rfl
    · exact .inr old
  · rintro (rfl | old)
    · exact .inl ⟨rfl, rfl⟩
    · exact .inr old

/-- A deletion takes the vault with the slug. -/
theorem mem_delete : other ∈ map.delete slug ↔ other.slug ≠ slug ∧ other ∈ map :=
  Table.holds_delete

end InstanceMap

/-- The instances of a registry, its event handlers, and the instances it listens to. -/
structure LiveRegistry where
  instances : InstanceMap
  eventHandlers : List Nat
  eventUnsubscribers : InstanceMap
  deriving DecidableEq

namespace LiveRegistry

def subscribeInstance (registry : LiveRegistry) (vault : VaultInstance) : LiveRegistry :=
  if registry.eventHandlers = [] ∨ (registry.eventUnsubscribers.get vault.slug).isSome then registry
  else { registry with eventUnsubscribers := registry.eventUnsubscribers.set vault }

def unsubscribeInstance (registry : LiveRegistry) (slug : JsString) : LiveRegistry :=
  { registry with eventUnsubscribers := registry.eventUnsubscribers.delete slug }

def unsubscribeAllInstances (registry : LiveRegistry) : LiveRegistry :=
  { registry with eventUnsubscribers := .empty }

def onVaultEvent (registry : LiveRegistry) (handler : Nat) : LiveRegistry :=
  let added := { registry with eventHandlers := registry.eventHandlers.insert handler }
  if added.eventHandlers.length = 1 then
    registry.instances.values.foldl subscribeInstance added
  else added

/-- The function that `onVaultEvent` returns. -/
def offVaultEvent (registry : LiveRegistry) (handler : Nat) : LiveRegistry :=
  let removed := { registry with eventHandlers := registry.eventHandlers.filter (· ≠ handler) }
  if removed.eventHandlers = [] then removed.unsubscribeAllInstances else removed

/-- The handlers that are called for an event of an instance. -/
def receivers (registry : LiveRegistry) (vault : VaultInstance) : List Nat :=
  (registry.eventUnsubscribers.values.filter (· = vault)).flatMap fun _ => registry.eventHandlers

variable {registry : LiveRegistry} {vault other : VaultInstance}

theorem mem_receivers {handler : Nat} : handler ∈ registry.receivers vault ↔
    vault ∈ registry.eventUnsubscribers ∧ handler ∈ registry.eventHandlers := by
  unfold receivers
  rw [List.mem_flatMap]
  constructor
  · rintro ⟨own, listed, registered⟩
    obtain ⟨member, same⟩ := List.mem_filter.mp listed
    rw [of_decide_eq_true same] at member
    exact ⟨InstanceMap.mem_values.mp member, registered⟩
  · rintro ⟨member, registered⟩
    exact ⟨vault, List.mem_filter.mpr ⟨InstanceMap.mem_values.mpr member, by simp⟩, registered⟩

/-- The events of a subscribed instance reach every handler once, those of others nobody. -/
theorem receivers_eq : registry.receivers vault =
    if vault ∈ registry.eventUnsubscribers then registry.eventHandlers else [] := by
  have apart : registry.eventUnsubscribers.values.Nodup := by
    have keys := registry.eventUnsubscribers.unique
    refine List.Nodup.of_map VaultInstance.slug ?_
    have same : registry.eventUnsubscribers.values.map VaultInstance.slug =
        registry.eventUnsubscribers.table.entries.map Prod.fst := by
      unfold InstanceMap.values
      rw [List.map_map]
      exact List.map_congr_left fun entry held => registry.eventUnsubscribers.keyed _ _ held
    rw [same]
    exact keys
  unfold receivers
  split
  · rename_i member
    rw [List.filter_eq, List.count_eq_one_of_mem apart (InstanceMap.mem_values.mpr member)]
    exact List.append_nil _
  · rename_i absent
    rw [List.filter_eq, List.count_eq_zero_of_not_mem fun listed => absent (InstanceMap.mem_values.mp listed)]
    rfl

/-- Subscribing to an instance with a slug that is not subscribed yet. -/
theorem mem_subscribeInstance (handled : registry.eventHandlers ≠ [])
    (apart : ∀ subscribed ∈ registry.eventUnsubscribers, subscribed.slug = vault.slug → subscribed = vault) :
    other ∈ (registry.subscribeInstance vault).eventUnsubscribers ↔
      other = vault ∨ other ∈ registry.eventUnsubscribers := by
  unfold subscribeInstance
  split
  · rename_i kept
    rcases kept with none | present
    · exact absurd none handled
    · obtain ⟨subscribed, found⟩ := Option.isSome_iff_exists.mp present
      obtain ⟨member, same⟩ := InstanceMap.get_eq_some_iff.mp found
      obtain rfl := apart subscribed member same
      constructor
      · exact .inr
      · rintro (rfl | old)
        · exact member
        · exact old
  · rw [InstanceMap.mem_set]
    constructor
    · rintro (rfl | ⟨_, old⟩)
      · exact .inl rfl
      · exact .inr old
    · rintro (rfl | old)
      · exact .inl rfl
      · by_cases same : other.slug = vault.slug
        · exact .inl (apart other old same)
        · exact .inr ⟨same, old⟩

theorem instances_subscribeInstance :
    (registry.subscribeInstance vault).instances = registry.instances := by
  unfold subscribeInstance
  split
  · rfl
  · rfl

theorem eventHandlers_subscribeInstance :
    (registry.subscribeInstance vault).eventHandlers = registry.eventHandlers := by
  unfold subscribeInstance
  split
  · rfl
  · rfl

theorem eventHandlers_foldl_subscribeInstance (vaults : List VaultInstance) :
    (vaults.foldl subscribeInstance registry).eventHandlers = registry.eventHandlers := by
  induction vaults generalizing registry with
  | nil => rfl
  | cons vault vaults ih => rw [List.foldl_cons, ih, eventHandlers_subscribeInstance]

theorem instances_foldl_subscribeInstance (vaults : List VaultInstance) :
    (vaults.foldl subscribeInstance registry).instances = registry.instances := by
  induction vaults generalizing registry with
  | nil => rfl
  | cons vault vaults ih => rw [List.foldl_cons, ih, instances_subscribeInstance]

/-- Subscribing to registered instances, where all that are subscribed are registered. -/
theorem mem_foldl_subscribeInstance {vaults : List VaultInstance} (handled : registry.eventHandlers ≠ [])
    (registered : ∀ vault ∈ vaults, vault ∈ registry.instances)
    (live : ∀ vault ∈ registry.eventUnsubscribers, vault ∈ registry.instances) :
    other ∈ (vaults.foldl subscribeInstance registry).eventUnsubscribers ↔
      other ∈ vaults ∨ other ∈ registry.eventUnsubscribers := by
  induction vaults generalizing registry with
  | nil => simp
  | cons vault vaults ih =>
      have own := registered vault List.mem_cons_self
      have added : ∀ other, other ∈ (registry.subscribeInstance vault).eventUnsubscribers ↔
          other = vault ∨ other ∈ registry.eventUnsubscribers := fun other =>
        mem_subscribeInstance handled fun subscribed member same =>
          InstanceMap.eq_of_slug_eq (live subscribed member) own same
      rw [List.foldl_cons, ih, added, List.mem_cons, or_assoc, or_left_comm]
      · rwa [eventHandlers_subscribeInstance]
      · rw [instances_subscribeInstance]
        exact fun later member => registered later (List.mem_cons_of_mem _ member)
      · rw [instances_subscribeInstance]
        intro subscribed member
        rcases (added subscribed).mp member with rfl | old
        · exact own
        · exact live subscribed old

/-- With the first handler the registry listens to every instance. -/
theorem mem_onVaultEvent {handler : Nat}
    (live : ∀ vault ∈ registry.eventUnsubscribers, vault ∈ registry.instances) :
    vault ∈ (registry.onVaultEvent handler).eventUnsubscribers ↔
      vault ∈ registry.eventUnsubscribers ∨
        (registry.eventHandlers.insert handler).length = 1 ∧ vault ∈ registry.instances := by
  unfold onVaultEvent
  dsimp only
  split
  · rename_i first
    rw [mem_foldl_subscribeInstance, InstanceMap.mem_values]
    · simp [first, or_comm]
    · exact List.ne_nil_of_length_eq_add_one first
    · exact fun vault member => InstanceMap.mem_values.mp member
    · exact live
  · rename_i later
    simp [later]

/-- A handler is added once. -/
theorem eventHandlers_onVaultEvent {handler : Nat} :
    (registry.onVaultEvent handler).eventHandlers = registry.eventHandlers.insert handler := by
  unfold onVaultEvent
  dsimp only
  split
  · rw [eventHandlers_foldl_subscribeInstance]
  · rfl

theorem instances_onVaultEvent {handler : Nat} :
    (registry.onVaultEvent handler).instances = registry.instances := by
  unfold onVaultEvent
  dsimp only
  split
  · rw [instances_foldl_subscribeInstance]
  · rfl

end LiveRegistry

end Kb1Daemon
