import Kb1Daemon.Registry.Entry

/-! # Booting

At boot every folder of the home becomes a vault: metadata of the legacy layout is taken over,
an identity that is stored is parsed, and where there is none one is minted from the folder's
name. A second boot finds the same vaults, and every identity the daemon has written is read
back, if and only if every name an identity was minted from is not blank and has a slug
(`booting_repeatable_iff`).
-/

namespace Kb1Daemon

open JsString

/-- The metadata directory of the legacy layout: its identity file, and whether its other files
have the sizes of the ones they are merged with. -/
structure LegacyMetadata where
  identity : Option JsString
  agrees : Bool
  deriving DecidableEq, Repr

/-- A folder of the home, as far as booting reads it: its metadata directory, if there is one,
with the identity file, and that of the legacy layout. -/
structure VaultFolder where
  name : JsString
  isDirectory : Bool
  metadata : Option (Option JsString)
  legacy : Option LegacyMetadata
  deriving DecidableEq, Repr

namespace VaultFolder

variable (slugger : Slugger) (vaultsHome : JsString)

/-- The text of the identity file. -/
def identity (folder : VaultFolder) : Option JsString := folder.metadata.join

def root (folder : VaultFolder) : JsString := Segments.child slash vaultsHome folder.name

def identityPath (folder : VaultFolder) : JsString :=
  folder.root vaultsHome ++ units "/.kb1/vault.json"

def legacyIdentityPath (folder : VaultFolder) : JsString :=
  folder.root vaultsHome ++ units "/.kb2/vault.json"

def migrationFailed (message : JsString) : JsString :=
  units "Migration verification failed: " ++ message

def assertSameVaultIdentity (folder : VaultFolder) (sourceRaw targetRaw : JsString) :
    Except JsString Unit := do
  let sourceIdentity ← parseVaultIdentity sourceRaw (folder.legacyIdentityPath vaultsHome)
  let targetIdentity ← parseVaultIdentity targetRaw (folder.identityPath vaultsHome)
  if sourceIdentity.id ≠ targetIdentity.id then
    .error (migrationFailed (units "vault identity mismatch (source " ++ sourceIdentity.id ++
      units ", copy " ++ targetIdentity.id ++ units ")."))
  else .ok ()

/-- The identity file after the legacy one is merged into it. -/
def reconcileIdentity (folder : VaultFolder) (legacy : LegacyMetadata) :
    Except JsString (Option JsString) :=
  match legacy.identity, folder.identity with
  | none, own => .ok own
  | some raw, none => .ok (some raw)
  | some raw, some own =>
      (folder.assertSameVaultIdentity vaultsHome raw own).map fun _ => some own

def migrateLegacyVaultMetadata (folder : VaultFolder) : Except JsString VaultFolder :=
  match folder.legacy with
  | none => .ok folder
  | some legacy =>
      if folder.metadata.isNone then
        .ok { folder with metadata := some legacy.identity, legacy := none }
      else if !legacy.agrees then .error (migrationFailed (units "size mismatch."))
      else (folder.reconcileIdentity vaultsHome legacy).map fun identity =>
        { folder with metadata := some identity, legacy := none }

/-- The identity that is minted for a folder. -/
def mintedIdentity (folder : VaultFolder) : VaultIdentity :=
  ⟨slugger.slugify folder.name, folder.name, none⟩

def readOrMintVaultIdentity (folder : VaultFolder) :
    Except JsString (VaultFolder × VaultIdentity) := do
  let migrated ← folder.migrateLegacyVaultMetadata vaultsHome
  match migrated.identity with
  | some raw =>
      (parseVaultIdentity raw (migrated.identityPath vaultsHome)).map fun identity =>
        (migrated, identity)
  | none =>
      .ok ({ migrated with metadata := some (some (identityText (migrated.mintedIdentity slugger))) },
        migrated.mintedIdentity slugger)

/-- What a boot does with a folder. -/
def settle (folder : VaultFolder) : Except JsString (VaultFolder × VaultIdentity) := do
  let migrated ← folder.migrateLegacyVaultMetadata vaultsHome
  migrated.readOrMintVaultIdentity slugger vaultsHome

/-- The entry of a folder with an identity. -/
def entry (folder : VaultFolder) (identity : VaultIdentity) : VaultRegistryEntry :=
  ⟨identity.id, identity.displayName, folder.root vaultsHome, identity.metadata⟩

/-- The folder after a boot. -/
def booted (folder : VaultFolder) : VaultFolder :=
  if folder.isDirectory then
    match folder.settle slugger vaultsHome with
    | .ok (settled, _) => settled
    | .error _ => folder
  else folder

/-- The folder is a vault without an identity file. -/
def fresh (folder : VaultFolder) : Bool :=
  folder.isDirectory && folder.identity.isNone && (folder.legacy.bind LegacyMetadata.identity).isNone

variable {slugger vaultsHome} {folder settled : VaultFolder} {identity : VaultIdentity}

theorem reconcileIdentity_eq_none {legacy : LegacyMetadata} {merged : Option JsString}
    (reconciled : folder.reconcileIdentity vaultsHome legacy = .ok merged) :
    merged = none ↔ folder.identity = none ∧ legacy.identity = none := by
  unfold reconcileIdentity at reconciled
  split at reconciled
  · rename_i own absent _
    cases reconciled
    simp_all
  · rename_i raw present absent
    cases reconciled
    simp_all
  · rename_i raw own present here
    cases same : folder.assertSameVaultIdentity vaultsHome raw own with
    | error message =>
        rw [same] at reconciled
        cases reconciled
    | ok checked =>
        rw [same] at reconciled
        cases reconciled
        simp_all

/-- What migrating the legacy metadata leaves. -/
theorem migrate_spec {migrated : VaultFolder}
    (done : folder.migrateLegacyVaultMetadata vaultsHome = .ok migrated) :
    migrated.name = folder.name ∧ migrated.isDirectory = folder.isDirectory ∧
      migrated.legacy = none ∧
        (migrated.identity = none ↔
          folder.identity = none ∧ folder.legacy.bind LegacyMetadata.identity = none) := by
  unfold migrateLegacyVaultMetadata at done
  split at done
  · rename_i absent
    cases done
    exact ⟨rfl, rfl, absent, by simp [absent]⟩
  · rename_i legacy present
    split at done
    · rename_i empty
      cases done
      refine ⟨rfl, rfl, rfl, ?_⟩
      rw [Option.isNone_iff_eq_none] at empty
      simp [identity, empty, present]
    · split at done
      · cases done
      · cases reconciled : folder.reconcileIdentity vaultsHome legacy with
        | error message =>
            rw [reconciled] at done
            cases done
        | ok merged =>
            rw [reconciled] at done
            cases done
            refine ⟨rfl, rfl, rfl, ?_⟩
            rw [present]
            exact reconcileIdentity_eq_none reconciled

/-- Nothing is migrated where there is no legacy metadata. -/
theorem migrate_of_no_legacy (absent : folder.legacy = none) :
    folder.migrateLegacyVaultMetadata vaultsHome = .ok folder := by
  rw [migrateLegacyVaultMetadata, absent]

/-- A folder that is settled is parsed if it has an identity, and else gets the minted one. -/
theorem settle_spec (done : folder.settle slugger vaultsHome = .ok (settled, identity)) :
    settled.name = folder.name ∧ settled.isDirectory = folder.isDirectory ∧ settled.legacy = none ∧
      (folder.fresh = false → folder.isDirectory = true → ∃ raw, settled.identity = some raw ∧
        parseVaultIdentity raw (settled.identityPath vaultsHome) = .ok identity) ∧
      (folder.fresh = true → settled.identity = some (identityText (folder.mintedIdentity slugger)) ∧
        identity = folder.mintedIdentity slugger) := by
  unfold settle at done
  cases migrating : folder.migrateLegacyVaultMetadata vaultsHome with
  | error message =>
      rw [migrating] at done
      cases done
  | ok migrated =>
      obtain ⟨name, directory, legacy, identityIff⟩ := migrate_spec migrating
      rw [migrating] at done
      change migrated.readOrMintVaultIdentity slugger vaultsHome = _ at done
      rw [readOrMintVaultIdentity, migrate_of_no_legacy legacy] at done
      have freshIff : folder.fresh = true ↔ folder.isDirectory = true ∧ migrated.identity = none := by
        rw [identityIff, fresh, Bool.and_eq_true, Bool.and_eq_true, Option.isNone_iff_eq_none,
          Option.isNone_iff_eq_none, and_assoc]
      have sameMint : migrated.mintedIdentity slugger = folder.mintedIdentity slugger := by
        rw [mintedIdentity, mintedIdentity, name]
      dsimp only [bind, Except.bind] at done
      cases found : migrated.identity with
      | none =>
          rw [found] at done freshIff
          cases done
          refine ⟨name, directory, legacy, fun old isDirectory => ?_, fun _ => ⟨?_, sameMint⟩⟩
          · rw [freshIff.mpr ⟨isDirectory, rfl⟩] at old
            cases old
          · rw [← sameMint]
            rfl
      | some raw =>
          rw [found] at done freshIff
          dsimp only at done
          cases parsed : parseVaultIdentity raw (migrated.identityPath vaultsHome) with
          | error message =>
              rw [parsed] at done
              cases done
          | ok own =>
              rw [parsed] at done
              cases done
              refine ⟨name, directory, legacy, fun _ _ => ⟨raw, found, parsed⟩, fun new => ?_⟩
              cases (freshIff.mp new).2

/-- What a second boot does with a settled folder. -/
theorem settle_settled (legacy : settled.legacy = none) {raw : JsString}
    (stored : settled.identity = some raw) :
    settled.settle slugger vaultsHome =
      (parseVaultIdentity raw (settled.identityPath vaultsHome)).map fun identity =>
        (settled, identity) := by
  rw [settle, migrate_of_no_legacy legacy]
  change settled.readOrMintVaultIdentity slugger vaultsHome = _
  rw [readOrMintVaultIdentity, migrate_of_no_legacy legacy]
  dsimp only [bind, Except.bind]
  rw [stored]

/-- The names an identity can be minted from: not blank, and with a slug. -/
def Named (slugger : Slugger) (name : JsString) : Prop := slugger.slugify name ≠ [] ∧ trim name ≠ []

theorem legible_mintedIdentity_iff :
    (folder.mintedIdentity slugger).Legible ↔ Named slugger folder.name := by
  have visible : trim (slugger.slugify folder.name) = slugger.slugify folder.name :=
    trim_eq_self
      (fun unit first => slugger.not_isWhitespace folder.name unit (List.mem_of_head? first))
      (fun unit last => slugger.not_isWhitespace folder.name unit (List.mem_of_getLast? last))
  constructor
  · intro legible
    have slug : trim (slugger.slugify folder.name) ≠ [] := legible.id
    rw [visible] at slug
    exact ⟨slug, legible.displayName⟩
  · rintro ⟨slug, name⟩
    refine ⟨?_, name, fun _ same => by cases same⟩
    change trim (slugger.slugify folder.name) ≠ []
    rwa [visible]

/-- **A second look at a folder.** A settled folder is settled to the same identity, unless it was
minted from a name that is blank or has no slug. -/
theorem settle_again_iff (directory : folder.isDirectory = true)
    (done : folder.settle slugger vaultsHome = .ok (settled, identity)) :
    settled.settle slugger vaultsHome = .ok (settled, identity) ↔
      (folder.fresh = true → Named slugger folder.name) := by
  obtain ⟨_, _, legacy, stored, minted⟩ := settle_spec done
  by_cases new : folder.fresh = true
  · obtain ⟨text, rfl⟩ := minted new
    rw [settle_settled legacy text]
    have reads := @parseVaultIdentity_identityText_iff (folder.mintedIdentity slugger)
      (fun _ same => by cases same) (settled.identityPath vaultsHome)
    rw [legible_mintedIdentity_iff] at reads
    constructor
    · intro again _
      refine reads.mp ?_
      cases read : parseVaultIdentity (identityText (folder.mintedIdentity slugger))
          (settled.identityPath vaultsHome) with
      | error message =>
          rw [read] at again
          cases again
      | ok own =>
          rw [read] at again
          cases again
          rfl
    · intro named
      rw [reads.mpr (named new)]
      rfl
  · obtain ⟨raw, found, parsed⟩ := stored (by simpa using new) directory
    rw [settle_settled legacy found, parsed]
    exact ⟨fun _ fresh => absurd fresh new, fun _ => rfl⟩

/-- A folder that is no directory is left as it is. -/
theorem booted_of_not_directory (other : folder.isDirectory = false) :
    folder.booted slugger vaultsHome = folder := by
  rw [booted, other]
  rfl

theorem booted_of_settle (directory : folder.isDirectory = true)
    (done : folder.settle slugger vaultsHome = .ok (settled, identity)) :
    folder.booted slugger vaultsHome = settled := by
  rw [booted, if_pos directory, done]

theorem name_booted (folder : VaultFolder) : (folder.booted slugger vaultsHome).name = folder.name := by
  unfold booted
  split
  · split
    · rename_i settled identity done
      exact (settle_spec done).1
    · rfl
  · rfl

end VaultFolder

section Discovery

variable (slugger : Slugger) (vaultsHome : JsString)

/-- One folder of `discoverVaults`. -/
def discoverVault (found : List VaultRegistryEntry) (folder : VaultFolder) :
    Except JsString (List VaultRegistryEntry) :=
  if !folder.isDirectory then .ok found
  else do
    let settled ← folder.settle slugger vaultsHome
    match found.find? fun entry => entry.slug = settled.2.id with
    | some existing =>
        .error (units "Duplicate vault slug \"" ++ settled.2.id ++ units "\" found in " ++
          existing.root ++ units " and " ++ folder.root vaultsHome ++
          units ". Vault slugs must be unique within a daemon.")
    | none => .ok (found ++ [folder.entry vaultsHome settled.2])

/-- The folders in the order of their names; `before` is the host's collation. -/
def sortedFolders (before : JsString → JsString → Bool) (disk : List VaultFolder) :
    List VaultFolder :=
  disk.insertionSort fun left right => before left.name right.name = true

/-- The entries of the folders of the home; a missing home has none. -/
def discoverVaults (before : JsString → JsString → Bool) (disk : List VaultFolder) :
    Except JsString (List VaultRegistryEntry) :=
  (sortedFolders before disk).foldlM (discoverVault slugger vaultsHome) []

/-- The folders after a boot. -/
def bootedDisk (disk : List VaultFolder) : List VaultFolder :=
  disk.map (VaultFolder.booted slugger vaultsHome)

/-- The identities a boot mints. -/
def mintedIdentities (disk : List VaultFolder) : List VaultIdentity :=
  (disk.filter VaultFolder.fresh).map (VaultFolder.mintedIdentity slugger)

/-- The registry after a boot. -/
def bootedRegistry (disk : List VaultFolder) (entries : List VaultRegistryEntry) : RegistryState :=
  ⟨vaultsHome, entries, disk.map VaultFolder.name⟩

variable {slugger vaultsHome}

/-- Every vault has been settled, its entry is found, and no two entries have one slug. -/
theorem discovered {folders : List VaultFolder} {found entries : List VaultRegistryEntry}
    (unique : (found.map VaultRegistryEntry.slug).Nodup)
    (done : folders.foldlM (discoverVault slugger vaultsHome) found = .ok entries) :
    (entries.map VaultRegistryEntry.slug).Nodup ∧ found ⊆ entries ∧
      (∀ folder ∈ folders, folder.isDirectory = true → ∃ settled identity,
        folder.settle slugger vaultsHome = .ok (settled, identity) ∧
          folder.entry vaultsHome identity ∈ entries) ∧
      ∀ entry ∈ entries, entry ∈ found ∨ ∃ folder ∈ folders, ∃ settled identity,
        folder.isDirectory = true ∧ folder.settle slugger vaultsHome = .ok (settled, identity) ∧
          entry = folder.entry vaultsHome identity := by
  induction folders generalizing found with
  | nil =>
      cases done
      exact ⟨unique, fun _ => id, fun _ member => absurd member List.not_mem_nil, fun _ => .inl⟩
  | cons folder folders ih =>
      rw [List.foldlM_cons] at done
      cases step : discoverVault slugger vaultsHome found folder with
      | error message =>
          rw [step] at done
          cases done
      | ok next =>
          rw [step] at done
          change folders.foldlM (discoverVault slugger vaultsHome) next = .ok entries at done
          unfold discoverVault at step
          split at step
          · rename_i other
            cases step
            obtain ⟨nodup, grown, settledAll, origins⟩ := ih unique done
            refine ⟨nodup, grown, fun own member directory => ?_, fun entry member => ?_⟩
            · rcases List.mem_cons.mp member with rfl | later
              · rw [directory] at other
                exact absurd other (by decide)
              · exact settledAll own later directory
            · rcases origins entry member with old | ⟨own, listed, facts⟩
              · exact .inl old
              · exact .inr ⟨own, List.mem_cons_of_mem _ listed, facts⟩
          · rename_i vault
            cases settling : folder.settle slugger vaultsHome with
            | error message =>
                rw [settling] at step
                cases step
            | ok result =>
                obtain ⟨settled, identity⟩ := result
                rw [settling] at step
                dsimp only [bind, Except.bind] at step
                split at step
                · cases step
                · rename_i absent
                  cases step
                  have apart : ∀ entry ∈ found, entry.slug ≠ identity.id := by
                    intro entry member same
                    have missing := List.find?_eq_none.mp absent entry member
                    exact missing (decide_eq_true same)
                  have nodup : ((found ++ [folder.entry vaultsHome identity]).map
                      VaultRegistryEntry.slug).Nodup := by
                    rw [List.map_append, List.map_singleton, List.nodup_append]
                    refine ⟨unique, List.nodup_singleton _, ?_⟩
                    rintro slug listed _ own rfl
                    obtain ⟨entry, member, rfl⟩ := List.mem_map.mp listed
                    exact apart entry member (List.mem_singleton.mp own)
                  obtain ⟨whole, grown, settledAll, origins⟩ := ih nodup done
                  refine ⟨whole, fun _ member => grown (List.mem_append_left _ member),
                    fun own member directory => ?_, fun entry member => ?_⟩
                  · rcases List.mem_cons.mp member with rfl | later
                    · exact ⟨settled, identity, settling,
                        grown (List.mem_append_right _ (List.mem_singleton_self _))⟩
                    · exact settledAll own later directory
                  · rcases origins entry member with old | ⟨own, listed, facts⟩
                    · rcases List.mem_append.mp old with earlier | here
                      · exact .inl earlier
                      · refine .inr ⟨folder, List.mem_cons_self, settled, identity, ?_, settling,
                          List.mem_singleton.mp here⟩
                        simpa using vault
                    · exact .inr ⟨own, List.mem_cons_of_mem _ listed, facts⟩

theorem sortedFolders_bootedDisk (before : JsString → JsString → Bool) (disk : List VaultFolder) :
    sortedFolders before (bootedDisk slugger vaultsHome disk) =
      (sortedFolders before disk).map (VaultFolder.booted slugger vaultsHome) := by
  unfold sortedFolders bootedDisk
  rw [List.map_insertionSort (fun left right : VaultFolder => before left.name right.name = true)
    (fun left right : VaultFolder => before left.name right.name = true)]
  intro left _ right _
  rw [VaultFolder.name_booted, VaultFolder.name_booted]

/-- Booting again does what it did the first time when it does so with every folder. -/
theorem discover_booted {folders : List VaultFolder} (found : List VaultRegistryEntry)
    (again : ∀ folder ∈ folders, ∀ found, discoverVault slugger vaultsHome found
      (folder.booted slugger vaultsHome) = discoverVault slugger vaultsHome found folder) :
    (folders.map (VaultFolder.booted slugger vaultsHome)).foldlM (discoverVault slugger vaultsHome)
      found = folders.foldlM (discoverVault slugger vaultsHome) found := by
  induction folders generalizing found with
  | nil => rfl
  | cons folder folders ih =>
      rw [List.map_cons, List.foldlM_cons, List.foldlM_cons, again folder List.mem_cons_self]
      congr 1
      funext next
      exact ih next fun own member => again own (List.mem_cons_of_mem _ member)

theorem mem_sortedFolders {before : JsString → JsString → Bool} {disk : List VaultFolder}
    {folder : VaultFolder} : folder ∈ sortedFolders before disk ↔ folder ∈ disk :=
  List.mem_insertionSort _

/-- **Booting is repeatable** exactly when every identity that is minted has a name that is not
blank and has a slug, and the same names decide whether every identity the daemon writes, at
boot and by any later calls, is read back unchanged. -/
theorem booting_repeatable_iff {before : JsString → JsString → Bool} {disk : List VaultFolder}
    {entries : List VaultRegistryEntry}
    (booted : discoverVaults slugger vaultsHome before disk = .ok entries) :
    (discoverVaults slugger vaultsHome before (bootedDisk slugger vaultsHome disk) = .ok entries ↔
        ∀ folder ∈ disk, folder.fresh = true → VaultFolder.Named slugger folder.name) ∧
      ((∀ calls, ∀ identity ∈ mintedIdentities slugger disk ++
            (bootedRegistry vaultsHome disk entries).written slugger calls,
          ∀ file, parseVaultIdentity (identityText identity) file = .ok identity) ↔
        ∀ folder ∈ disk, folder.fresh = true → VaultFolder.Named slugger folder.name) := by
  obtain ⟨unique, _, settledAll, origins⟩ := discovered (by simp) booted
  have directoryOf : ∀ folder : VaultFolder, folder.fresh = true → folder.isDirectory = true := by
    intro folder new
    rw [VaultFolder.fresh, Bool.and_eq_true, Bool.and_eq_true] at new
    exact new.1.1
  constructor
  · unfold discoverVaults
    rw [sortedFolders_bootedDisk]
    constructor
    · intro again folder member new
      have directory := directoryOf folder new
      obtain ⟨settled, identity, settling, listed⟩ :=
        settledAll folder (mem_sortedFolders.mpr member) directory
      obtain ⟨name, isDirectory, legacy, _, minted⟩ := VaultFolder.settle_spec settling
      obtain ⟨text, rfl⟩ := minted new
      obtain ⟨_, _, settledAgain, _⟩ := discovered (by simp) again
      obtain ⟨second, read, resettling, relisted⟩ := settledAgain settled
        (List.mem_map.mpr ⟨folder, mem_sortedFolders.mpr member,
          VaultFolder.booted_of_settle directory settling⟩) (by rw [isDirectory, directory])
      have whole := resettling
      rw [VaultFolder.settle_settled legacy text,
        parseVaultIdentity_identityText (fun _ same => by cases same)] at resettling
      refine (VaultFolder.settle_again_iff directory settling).mp ?_ new
      by_cases blank : trim (folder.mintedIdentity slugger).id = []
      · rw [if_pos blank] at resettling
        cases resettling
      · rw [if_neg blank] at resettling
        have same : settled.entry vaultsHome read =
            folder.entry vaultsHome (folder.mintedIdentity slugger) := by
          refine List.inj_on_of_nodup_map unique relisted listed ?_
          cases resettling
          rfl
        have alike : read = folder.mintedIdentity slugger := by
          have fields := VaultRegistryEntry.mk.inj same
          cases read
          cases hold : folder.mintedIdentity slugger
          rw [hold] at fields
          simp_all
        rw [whole, alike]
        cases resettling
        rfl
    · intro named
      rw [discover_booted]
      · exact booted
      · intro folder member found
        by_cases directory : folder.isDirectory = true
        · obtain ⟨settled, identity, settling, _⟩ := settledAll folder member directory
          have again := (VaultFolder.settle_again_iff directory settling).mpr
            (named folder (mem_sortedFolders.mp member))
          obtain ⟨name, isDirectory, _⟩ := VaultFolder.settle_spec settling
          rw [VaultFolder.booted_of_settle directory settling]
          unfold discoverVault
          rw [isDirectory, settling, again]
          unfold VaultFolder.entry VaultFolder.root
          rw [name]
        · rw [VaultFolder.booted_of_not_directory (by simpa using directory)]
  · constructor
    · intro readBack folder member new
      refine VaultFolder.legible_mintedIdentity_iff.mp ?_
      refine (parseVaultIdentity_identityText_iff (fun _ same => by cases same) []).mp ?_
      refine readBack [] _ (List.mem_append_left _ ?_) []
      exact List.mem_map_of_mem (List.mem_filter.mpr ⟨member, new⟩)
    · intro named calls identity written file
      have legible : identity.Legible := by
        rcases List.mem_append.mp written with minted | later
        · obtain ⟨folder, listed, rfl⟩ := List.mem_map.mp minted
          obtain ⟨member, new⟩ := List.mem_filter.mp listed
          exact VaultFolder.legible_mintedIdentity_iff.mpr (named folder member new)
        · refine RegistryState.legible_of_mem_written ?_ calls identity later
          intro entry member
          rcases origins entry member with old | ⟨folder, listed, settled, own, directory, settling, rfl⟩
          · cases old
          · obtain ⟨_, _, _, stored, minted⟩ := VaultFolder.settle_spec settling
            by_cases new : folder.fresh = true
            · obtain ⟨_, rfl⟩ := minted new
              exact VaultFolder.legible_mintedIdentity_iff.mpr
                (named folder (mem_sortedFolders.mp listed) new)
            · obtain ⟨raw, _, parsed⟩ := stored (by simpa using new) directory
              exact legible_of_parse parsed
      exact (parseVaultIdentity_identityText_iff legible.metadata file).mpr legible

end Discovery

/-- A home with one new folder. -/
def newFolder (name : String) : List VaultFolder := [⟨units name, true, none, none⟩]

/-- A new folder whose name has a slug. -/
theorem booting_repeatable_new_folder :
    (discoverVaults Slugger.plain (units "/kb/vaults") (fun _ _ => true)
          (bootedDisk Slugger.plain (units "/kb/vaults") (newFolder "Notes")) =
        .ok [⟨units "notes", units "Notes", units "/kb/vaults/Notes", none⟩] ↔
      ∀ folder ∈ newFolder "Notes", folder.fresh = true →
        VaultFolder.Named Slugger.plain folder.name) ∧
      ((∀ calls, ∀ identity ∈ mintedIdentities Slugger.plain (newFolder "Notes") ++
            (bootedRegistry (units "/kb/vaults") (newFolder "Notes")
              [⟨units "notes", units "Notes", units "/kb/vaults/Notes", none⟩]).written
                Slugger.plain calls,
          ∀ file, parseVaultIdentity (identityText identity) file = .ok identity) ↔
        ∀ folder ∈ newFolder "Notes", folder.fresh = true →
          VaultFolder.Named Slugger.plain folder.name) :=
  booting_repeatable_iff (by decide +kernel)

/-- A folder whose name has no slug is booted once and never again. -/
theorem booting_unsluggable_folder :
    discoverVaults Slugger.plain (units "/kb/vaults") (fun _ _ => true) (newFolder "!!!") =
        .ok [⟨[], units "!!!", units "/kb/vaults/!!!", none⟩] ∧
      discoverVaults Slugger.plain (units "/kb/vaults") (fun _ _ => true)
          (bootedDisk Slugger.plain (units "/kb/vaults") (newFolder "!!!")) =
        .error (malformedIdentity (units "/kb/vaults/!!!/.kb1/vault.json")
          (units "\"id\" must be a non-empty string.")) :=
  ⟨by decide +kernel, by decide +kernel⟩

end Kb1Daemon
