import Kb1Daemon.Registry.Identity

/-! # Registry entries and the identities that are written for them

Creating a vault, renaming it and setting its metadata each write a whole identity, built from
the call and the entry in memory. As long as the entries are legible, every identity that is
written is read back unchanged (`RegistryState.legible_of_mem_written`).
-/

namespace JsString

theorem not_isWhitespace_head_dropWhile (text : JsString) :
    ∀ unit ∈ (text.dropWhile isWhitespace).head?, isWhitespace unit = false := by
  intro unit first
  have found := List.head?_dropWhile_not isWhitespace text
  rw [Option.mem_def.mp first] at found
  simpa using found

theorem trim_trim (text : JsString) : trim (trim text) = trim text := by
  have last : ∀ unit ∈ (trim text).getLast?, isWhitespace unit = false := by
    intro unit final
    rw [trim, List.getLast?_reverse] at final
    exact not_isWhitespace_head_dropWhile _ unit final
  have first : ∀ unit ∈ (trim text).head?, isWhitespace unit = false := by
    intro unit first
    have front : trim text <+: text.dropWhile isWhitespace := by
      have suffix := List.dropWhile_suffix isWhitespace (l := (text.dropWhile isWhitespace).reverse)
      have reversed := List.reverse_prefix.mpr suffix
      rwa [List.reverse_reverse] at reversed
    obtain ⟨rest, whole⟩ := front
    refine not_isWhitespace_head_dropWhile text unit ?_
    rw [← whole, List.head?_append, Option.mem_def.mp first]
    rfl
  exact trim_eq_self first last

end JsString

namespace Kb1Daemon

open JsString

structure VaultRegistryEntry where
  slug : JsString
  displayName : JsString
  root : JsString
  metadata : Option VaultMetadata
  deriving DecidableEq, Repr

/-- The color of a metadata input: left out, null, a string, or no valid value. -/
inductive ColorInput where
  | absent
  | null
  | string (color : JsString)
  | other
  deriving DecidableEq, Repr

inductive VaultRegistryErrorCode where
  | invalidRequest
  | alreadyExists
  | notFound
  deriving DecidableEq, Repr

structure VaultRegistryError where
  error : VaultRegistryErrorCode
  message : JsString
  deriving DecidableEq, Repr

def normalizeVaultMetadataInput : ColorInput → Except VaultRegistryError ColorInput
  | .absent => .ok .absent
  | .null => .ok .null
  | .string color =>
      match normalizeFolderMetadataColor color with
      | none => .error ⟨.invalidRequest, units "metadata.color must be \"inherit\" or a hex color"⟩
      | some normalized => .ok (.string normalized)
  | .other => .error ⟨.invalidRequest, units "metadata.color must be a string or null"⟩

def applyVaultMetadataInput (current : VaultMetadata) : ColorInput → VaultMetadata
  | .null => ⟨none⟩
  | .string color => ⟨some color⟩
  | _ => current

/-- Metadata as it is stored: empty metadata is left out. -/
def storedMetadata (metadata : VaultMetadata) : Option VaultMetadata :=
  if isEmptyVaultMetadata metadata then none else some metadata

def invalidDisplayName : VaultRegistryError :=
  ⟨.invalidRequest, units "displayName must be a non-empty string"⟩

def invalidSlug : VaultRegistryError :=
  ⟨.invalidRequest,
    units "slug must be non-empty and already normalized (lowercase, hyphen-separated)."⟩

def unknownVault (id : JsString) : VaultRegistryError :=
  ⟨.notFound, units "No vault with id \"" ++ id ++ units "\"."⟩

def existingVault (slug : JsString) : VaultRegistryError :=
  ⟨.alreadyExists, units "A vault with id \"" ++ slug ++ units "\" already exists."⟩

def existingFolder (slug : JsString) : VaultRegistryError :=
  ⟨.alreadyExists, units "A vault folder already exists at id \"" ++ slug ++ units "\"."⟩

namespace VaultRegistryEntry

/-- The identity `rename` writes. -/
def renameIdentity (entry : VaultRegistryEntry) (displayName : JsString) : VaultIdentity :=
  ⟨entry.slug, displayName, entry.metadata⟩

/-- The metadata of an entry after an input. -/
def nextMetadata (entry : VaultRegistryEntry) (input : ColorInput) : VaultMetadata :=
  applyVaultMetadataInput (entry.metadata.getD ⟨none⟩) input

/-- The identity `setMetadata` writes. -/
def metadataIdentity (entry : VaultRegistryEntry) (input : ColorInput) : VaultIdentity :=
  ⟨entry.slug, entry.displayName, storedMetadata (entry.nextMetadata input)⟩

/-- The identity of an entry. -/
def identity (entry : VaultRegistryEntry) : VaultIdentity :=
  ⟨entry.slug, entry.displayName, entry.metadata⟩

end VaultRegistryEntry

/-- The calls that write an identity. -/
inductive VaultCall where
  | create (displayName slug : JsString)
  | rename (id displayName : JsString)
  | setMetadata (id : JsString) (input : ColorInput)
  deriving DecidableEq, Repr

/-- The entries of a registry and the folders of its home. -/
structure RegistryState where
  vaultsHome : JsString
  entries : List VaultRegistryEntry
  folders : List JsString
  deriving DecidableEq, Repr

namespace RegistryState

variable (slugger : Slugger)

def find (state : RegistryState) (id : JsString) : Option VaultRegistryEntry :=
  state.entries.find? fun entry => entry.slug = id

def update (state : RegistryState) (id : JsString)
    (change : VaultRegistryEntry → VaultRegistryEntry) : RegistryState :=
  { state with
    entries := state.entries.map fun entry => if entry.slug = id then change entry else entry }

/-- One call after another: the identity a successful call writes and the state after it. -/
def perform (state : RegistryState) : VaultCall →
    Except VaultRegistryError (VaultIdentity × RegistryState)
  | .create name slug =>
      if trim name = [] then .error invalidDisplayName
      else if !slugger.isWellFormedSlug slug then .error invalidSlug
      else if (state.find slug).isSome then .error (existingVault slug)
      else if slug ∈ state.folders then .error (existingFolder slug)
      else .ok (⟨slug, trim name, none⟩,
        { state with
          entries := state.entries ++
            [⟨slug, trim name, Segments.child slash state.vaultsHome slug, none⟩]
          folders := slug :: state.folders })
  | .rename id name =>
      if trim name = [] then .error invalidDisplayName
      else
        match state.find id with
        | none => .error (unknownVault id)
        | some entry => .ok (entry.renameIdentity (trim name),
            state.update id fun entry => { entry with displayName := trim name })
  | .setMetadata id input =>
      match state.find id with
      | none => .error (unknownVault id)
      | some entry =>
          (normalizeVaultMetadataInput input).map fun normalized =>
            (entry.metadataIdentity normalized,
              state.update id fun entry =>
                { entry with metadata := storedMetadata (entry.nextMetadata normalized) })

/-- The identities that are written by calls. -/
def written (state : RegistryState) : List VaultCall → List VaultIdentity
  | [] => []
  | call :: calls =>
      match state.perform slugger call with
      | .error _ => written state calls
      | .ok (identity, next) => identity :: written next calls

/-- The entries are legible. -/
def Legible (state : RegistryState) : Prop := ∀ entry ∈ state.entries, entry.identity.Legible

variable {slugger}

/-- A slug is not blank. -/
theorem trim_slug {slug : JsString} (wellFormed : slugger.isWellFormedSlug slug = true) :
    trim slug ≠ [] := by
  obtain ⟨some, same⟩ := slugger.isWellFormedSlug_iff.mp wellFormed
  have visible : ∀ unit ∈ slug, isWhitespace unit = false := by
    rw [← same]
    exact slugger.not_isWhitespace slug
  rw [trim_eq_self (fun unit first => visible unit (List.mem_of_head? first))
    (fun unit last => visible unit (List.mem_of_getLast? last))]
  exact some

/-- Metadata is normal after a normal input. -/
theorem normal_storedMetadata {entry : VaultRegistryEntry} {input normalized : ColorInput}
    (normal : NormalMetadata entry.metadata)
    (checked : normalizeVaultMetadataInput input = .ok normalized) :
    NormalMetadata (storedMetadata (entry.nextMetadata normalized)) := by
  have kept : NormalMetadata (storedMetadata (entry.metadata.getD ⟨none⟩)) := by
    cases stored : entry.metadata with
    | none =>
        intro metadata same
        cases same
    | some metadata =>
        obtain ⟨color, colored, fine⟩ := normal metadata stored
        intro other same
        rw [Option.getD_some, storedMetadata, isEmptyVaultMetadata, colored] at same
        cases same
        exact ⟨color, colored, fine⟩
  cases input with
  | absent =>
      cases checked
      exact kept
  | null =>
      cases checked
      intro metadata same
      cases same
  | other => cases checked
  | string color =>
      rw [normalizeVaultMetadataInput] at checked
      split at checked
      · cases checked
      · rename_i stored found
        cases checked
        intro metadata same
        cases same
        exact ⟨stored, rfl, normalColor_of_normalize found⟩

/-- **One call.** On legible entries, a call writes a legible identity and leaves legible
entries. -/
theorem legible_perform {state next : RegistryState} {call : VaultCall} {identity : VaultIdentity}
    (legible : state.Legible) (performed : state.perform slugger call = .ok (identity, next)) :
    identity.Legible ∧ next.Legible := by
  have updated : ∀ (id : JsString) (change : VaultRegistryEntry → VaultRegistryEntry),
      (∀ entry ∈ state.entries, entry.slug = id → (change entry).identity.Legible) →
        (state.update id change).Legible := by
    intro id change fine entry member
    obtain ⟨source, listed, rfl⟩ := List.mem_map.mp member
    split
    · exact fine source listed ‹_›
    · exact legible source listed
  cases call with
  | create name slug =>
      rw [perform] at performed
      split_ifs at performed with blank bad known present
      cases performed
      have fine : VaultIdentity.Legible ⟨slug, trim name, none⟩ :=
        ⟨trim_slug (by simpa using bad), by rwa [trim_trim], fun _ same => by cases same⟩
      refine ⟨fine, fun entry member => ?_⟩
      rcases List.mem_append.mp member with old | new
      · exact legible entry old
      · rw [List.mem_singleton.mp new]
        exact fine
  | rename id name =>
      rw [perform] at performed
      split_ifs at performed with blank
      cases found : state.find id with
      | none =>
          rw [found] at performed
          cases performed
      | some entry =>
          rw [found] at performed
          cases performed
          have named : trim (trim name) ≠ [] := by rwa [trim_trim]
          have own := legible entry (List.mem_of_find?_eq_some found)
          refine ⟨⟨own.id, named, own.metadata⟩, updated id _ fun other listed _ => ?_⟩
          exact ⟨(legible other listed).id, named, (legible other listed).metadata⟩
  | setMetadata id input =>
      rw [perform] at performed
      cases found : state.find id with
      | none =>
          rw [found] at performed
          cases performed
      | some entry =>
          rw [found] at performed
          cases checked : normalizeVaultMetadataInput input with
          | error refused =>
              rw [checked] at performed
              cases performed
          | ok normalized =>
              rw [checked] at performed
              cases performed
              have own := legible entry (List.mem_of_find?_eq_some found)
              refine ⟨⟨own.id, own.displayName, normal_storedMetadata own.metadata checked⟩,
                updated id _ fun other listed _ => ?_⟩
              have fine := legible other listed
              exact ⟨fine.id, fine.displayName, normal_storedMetadata fine.metadata checked⟩

/-- **Calls on legible entries.** Every identity they write is legible. -/
theorem legible_of_mem_written {state : RegistryState} (legible : state.Legible)
    (calls : List VaultCall) : ∀ identity ∈ state.written slugger calls, identity.Legible := by
  induction calls generalizing state with
  | nil => exact fun _ member => absurd member List.not_mem_nil
  | cons call calls ih =>
      intro identity member
      unfold written at member
      split at member
      · exact ih legible identity member
      · rename_i own next performed
        have step := legible_perform legible performed
        rcases List.mem_cons.mp member with rfl | later
        · exact step.1
        · exact ih step.2 identity later

end RegistryState

end Kb1Daemon
