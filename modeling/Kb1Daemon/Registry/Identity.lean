import Kb1Daemon.Foundation.JsonPretty
import Kb1Daemon.Snapshot.Paths
import Kb1Daemon.Vault.Slug

/-! # Vault identities

A vault's identity is stored as JSON in its metadata directory. The parser refuses a blank
identifier, replaces a blank display name by the identifier and normalizes the color; so an
identity is read back as it was written exactly when it is legible
(`parseVaultIdentity_identityText_iff`).
-/

namespace Kb1Daemon

open JsString

structure VaultMetadata where
  color : Option JsString
  deriving DecidableEq, Repr

structure VaultIdentity where
  id : JsString
  displayName : JsString
  metadata : Option VaultMetadata
  deriving DecidableEq, Repr

def isEmptyVaultMetadata (metadata : VaultMetadata) : Bool := metadata.color.isNone

def inheritColor : JsString := units "inherit"

/-- The number sign. -/
def numberSign : CodeUnit := 35

/-- `HEX_COLOR_PATTERN`. -/
def isHexColor (color : JsString) : Bool :=
  match color with
  | [] => false
  | mark :: digits =>
      mark = numberSign && (digits.length = 3 || digits.length = 6) &&
        digits.all fun digit => isHexDigit (foldUnit digit)

def normalizeFolderMetadataColor (color : JsString) : Option JsString :=
  if color = inheritColor then some inheritColor
  else if !isHexColor color then none
  else
    match color.map foldUnit with
    | [mark, red, green, blue] => some [mark, red, red, green, green, blue, blue]
    | normalized => some normalized

def metadataJson (metadata : VaultMetadata) : Json :=
  .object (metadata.color.toList.map fun color => (units "color", .string color))

/-- The payload of `writeVaultIdentity`. -/
def identityJson (identity : VaultIdentity) : Json :=
  .object ([(units "id", .string identity.id), (units "displayName", .string identity.displayName)] ++
    (identity.metadata.toList.filter fun metadata => !isEmptyVaultMetadata metadata).map fun metadata =>
      (units "metadata", metadataJson metadata))

/-- The text `writeVaultIdentity` writes. -/
def identityText (identity : VaultIdentity) : JsString :=
  Json.pretty 0 (identityJson identity) ++ [lineFeed]

def malformedIdentity (file message : JsString) : JsString :=
  units "Malformed vault identity at " ++ file ++ units ": " ++ message

def parseVaultMetadata (value : Option Json) (file : JsString) :
    Except JsString (Option VaultMetadata) :=
  match value with
  | none => .ok none
  | some (.object record) =>
      match Json.get record (units "color") with
      | none => .ok none
      | some (.string color) =>
          match normalizeFolderMetadataColor color with
          | none => .error (malformedIdentity file
              (units "\"metadata.color\" must be \"inherit\" or a hex color."))
          | some normalized => .ok (some ⟨some normalized⟩)
      | some _ => .error (malformedIdentity file (units "\"metadata.color\" must be a string."))
  | some _ => .error (malformedIdentity file (units "\"metadata\" must be a JSON object."))

/-- The display name of a record, or else its identifier. -/
def displayNameOf (record : List (JsString × Json)) (id : JsString) : JsString :=
  match Json.get record (units "displayName") with
  | some (.string displayName) => if trim displayName = [] then id else displayName
  | _ => id

def parseVaultIdentity (raw file : JsString) : Except JsString VaultIdentity :=
  match Json.parse raw with
  | none => .error (malformedIdentity file (units "not valid JSON."))
  | some (.object record) =>
      match Json.get record (units "id") with
      | some (.string id) =>
          if trim id = [] then
            .error (malformedIdentity file (units "\"id\" must be a non-empty string."))
          else (parseVaultMetadata (Json.get record (units "metadata")) file).map fun metadata =>
            ⟨id, displayNameOf record id, metadata⟩
      | _ => .error (malformedIdentity file (units "\"id\" must be a non-empty string."))
  | some _ => .error (malformedIdentity file (units "expected a JSON object."))

/-- The color is its own normal form. -/
def NormalColor (color : JsString) : Prop := normalizeFolderMetadataColor color = some color

/-- Metadata that is there has a normal color. -/
def NormalMetadata (metadata : Option VaultMetadata) : Prop :=
  ∀ stored, metadata = some stored → ∃ color, stored.color = some color ∧ NormalColor color

/-- Neither the identifier nor the display name is blank, and metadata has a normal color. -/
structure VaultIdentity.Legible (identity : VaultIdentity) : Prop where
  id : trim identity.id ≠ []
  displayName : trim identity.displayName ≠ []
  metadata : NormalMetadata identity.metadata

theorem foldUnit_foldUnit (unit : CodeUnit) : foldUnit (foldUnit unit) = foldUnit unit := by
  have checked : ∀ value < 128, foldUnit (foldUnit (UInt16.ofNat value)) = foldUnit (UInt16.ofNat value) := by
    decide
  by_cases low : unit.toNat < 128
  · rw [← @UInt16.ofNat_toNat unit]
    exact checked _ low
  · have kept : foldUnit unit = unit := by
      unfold foldUnit
      rw [if_neg]
      rw [Bool.and_eq_true, decide_eq_true_eq, decide_eq_true_eq, UInt16.le_iff_toNat_le,
        UInt16.le_iff_toNat_le]
      rintro ⟨_, upper⟩
      exact low (Nat.lt_of_le_of_lt upper (by decide))
    rw [kept, kept]

/-- Six lower-case digits after the number sign are a normal color. -/
theorem normalColor_of_digits {digits : JsString} (six : digits.length = 6)
    (hex : ∀ digit ∈ digits, isHexDigit digit = true ∧ foldUnit digit = digit) :
    NormalColor (numberSign :: digits) := by
  have folded : (numberSign :: digits).map foldUnit = numberSign :: digits := by
    rw [List.map_cons, (List.map_congr_left fun digit member => (hex digit member).2).trans
      (List.map_id digits)]
    rfl
  have shape : isHexColor (numberSign :: digits) = true := by
    have all : digits.all (fun digit => isHexDigit (foldUnit digit)) = true := by
      rw [List.all_eq_true]
      intro digit member
      rw [(hex digit member).2]
      exact (hex digit member).1
    rw [isHexColor, all, six]
    rfl
  have other : numberSign :: digits ≠ inheritColor := by
    intro same
    have first := congrArg List.head? same
    rw [List.head?_cons] at first
    exact absurd first (by decide)
  unfold NormalColor normalizeFolderMetadataColor
  rw [if_neg other, if_neg (by simp [shape]), folded]
  split
  · rename_i mark red green blue same
    rw [(List.cons.inj same).2] at six
    cases six
  · rfl

/-- **Normal forms of colors.** Normalizing yields a normal color. -/
theorem normalColor_of_normalize {color normalized : JsString}
    (found : normalizeFolderMetadataColor color = some normalized) : NormalColor normalized := by
  unfold normalizeFolderMetadataColor at found
  by_cases inherits : color = inheritColor
  · rw [if_pos inherits] at found
    cases found
    exact if_pos rfl
  · rw [if_neg inherits] at found
    by_cases hex : isHexColor color = true
    · rw [if_neg (by simp [hex])] at found
      cases color with
      | nil => cases hex
      | cons mark digits =>
          simp only [isHexColor, Bool.and_eq_true, Bool.or_eq_true, decide_eq_true_eq,
            List.all_eq_true] at hex
          obtain ⟨⟨rfl, size⟩, all⟩ := hex
          have sign : foldUnit numberSign = numberSign := by decide
          rcases size with three | six
          · obtain ⟨red, green, blue, rfl⟩ := List.length_eq_three.mp three
            rw [List.map_cons, List.map_cons, List.map_cons, List.map_cons, List.map_nil, sign] at found
            cases found
            refine normalColor_of_digits rfl ?_
            simp only [List.mem_cons, List.not_mem_nil, or_false, forall_eq_or_imp, forall_eq,
              foldUnit_foldUnit, and_true] at all ⊢
            exact ⟨all.1, all.1, all.2.1, all.2.1, all.2.2, all.2.2⟩
          · have long : (digits.map foldUnit).length = 6 := by rw [List.length_map, six]
            have kept : some (numberSign :: digits.map foldUnit) = some normalized := by
              rw [← found, List.map_cons, sign]
              split
              · rename_i mark red green blue same
                rw [(List.cons.inj same).2] at long
                cases long
              · rfl
            cases kept
            refine normalColor_of_digits long fun digit member => ?_
            obtain ⟨source, listed, rfl⟩ := List.mem_map.mp member
            exact ⟨all source listed, foldUnit_foldUnit source⟩
    · rw [if_pos (by simpa using hex)] at found
      cases found

/-- Metadata with a color is parsed as its normal form. -/
theorem parseVaultMetadata_metadataJson {color : JsString} (normal : NormalColor color)
    (file : JsString) :
    parseVaultMetadata (some (metadataJson ⟨some color⟩)) file = .ok (some ⟨some color⟩) := by
  have stored : Json.get [(units "color", Json.string color)] (units "color") =
      some (.string color) := by
    simp [Json.get]
  have shape : metadataJson ⟨some color⟩ = .object [(units "color", .string color)] := rfl
  rw [shape, parseVaultMetadata, stored]
  dsimp only
  rw [show normalizeFolderMetadataColor color = some color from normal]

/-- The text of an identity is that of its record. -/
theorem parse_identityText (identity : VaultIdentity) :
    Json.parse (identityText identity) = some (identityJson identity) := by
  refine Json.parse_pretty (.object fun member listed => ?_) [lineFeed] (by decide)
    (Json.ends_cons (by decide) (by decide) [])
  rcases List.mem_append.mp listed with own | metadata
  · rcases List.mem_cons.mp own with rfl | own
    · exact .string _
    · rw [List.mem_singleton.mp own]
      exact .string _
  · obtain ⟨stored, _, rfl⟩ := List.mem_map.mp metadata
    refine .object fun member listed => ?_
    obtain ⟨color, _, rfl⟩ := List.mem_map.mp listed
    exact .string color

/-- **Reading an identity back.** -/
theorem parseVaultIdentity_identityText {identity : VaultIdentity}
    (normal : NormalMetadata identity.metadata) (file : JsString) :
    parseVaultIdentity (identityText identity) file =
      if trim identity.id = [] then
        .error (malformedIdentity file (units "\"id\" must be a non-empty string."))
      else .ok ⟨identity.id,
        if trim identity.displayName = [] then identity.id else identity.displayName,
        identity.metadata⟩ := by
  obtain ⟨id, displayName, metadata⟩ := identity
  have parsed := parse_identityText ⟨id, displayName, metadata⟩
  rw [parseVaultIdentity, parsed]
  cases metadata with
  | none =>
      have shape : identityJson ⟨id, displayName, none⟩ =
          .object [(units "id", .string id), (units "displayName", .string displayName)] := rfl
      have getId : Json.get [(units "id", Json.string id),
          (units "displayName", .string displayName)] (units "id") = some (.string id) := by
        simp [Json.get, units]
      have getName : Json.get [(units "id", Json.string id),
          (units "displayName", .string displayName)] (units "displayName") =
            some (.string displayName) := by
        simp [Json.get]
      have getMetadata : Json.get [(units "id", Json.string id),
          (units "displayName", .string displayName)] (units "metadata") = none := by
        simp [Json.get, units]
      rw [shape]
      dsimp only
      rw [getId]
      dsimp only
      rw [getMetadata, displayNameOf, getName]
      rfl
  | some stored =>
      obtain ⟨color, rfl, normalColor⟩ : ∃ color, stored = ⟨some color⟩ ∧ NormalColor color := by
        obtain ⟨color, same, fine⟩ := normal stored rfl
        exact ⟨color, by rw [← same], fine⟩
      have shape : identityJson ⟨id, displayName, some ⟨some color⟩⟩ =
          .object [(units "id", .string id), (units "displayName", .string displayName),
            (units "metadata", metadataJson ⟨some color⟩)] := rfl
      have getId : Json.get [(units "id", Json.string id),
          (units "displayName", .string displayName),
          (units "metadata", metadataJson ⟨some color⟩)] (units "id") = some (.string id) := by
        simp [Json.get, units]
      have getName : Json.get [(units "id", Json.string id),
          (units "displayName", .string displayName),
          (units "metadata", metadataJson ⟨some color⟩)] (units "displayName") =
            some (.string displayName) := by
        simp [Json.get, units]
      have getMetadata : Json.get [(units "id", Json.string id),
          (units "displayName", .string displayName),
          (units "metadata", metadataJson ⟨some color⟩)] (units "metadata") =
            some (metadataJson ⟨some color⟩) := by
        simp [Json.get]
      rw [shape]
      dsimp only
      rw [getId]
      dsimp only
      rw [getMetadata, parseVaultMetadata_metadataJson normalColor, displayNameOf, getName]
      rfl

/-- **Legible identities.** An identity with normal metadata is read back unchanged if and only
if neither its identifier nor its display name is blank. -/
theorem parseVaultIdentity_identityText_iff {identity : VaultIdentity}
    (normal : NormalMetadata identity.metadata) (file : JsString) :
    parseVaultIdentity (identityText identity) file = .ok identity ↔ identity.Legible := by
  rw [parseVaultIdentity_identityText normal]
  constructor
  · intro read
    by_cases blank : trim identity.id = []
    · rw [if_pos blank] at read
      cases read
    · rw [if_neg blank] at read
      refine ⟨blank, fun unnamed => ?_, normal⟩
      have name : identity.id = identity.displayName := by
        have same := congrArg VaultIdentity.displayName (Except.ok.inj read)
        rwa [if_pos unnamed] at same
      rw [name] at blank
      exact blank unnamed
  · intro legible
    rw [if_neg legible.id, if_neg legible.displayName]

/-- What is read does not depend on where the file is. -/
theorem parseVaultMetadata_file {value : Option Json} {file : JsString}
    {metadata : Option VaultMetadata} (parsed : parseVaultMetadata value file = .ok metadata)
    (other : JsString) : parseVaultMetadata value other = .ok metadata := by
  rcases value with _ | (_ | _ | _ | _ | _ | record)
  · exact parsed
  · cases parsed
  · cases parsed
  · cases parsed
  · cases parsed
  · cases parsed
  · rw [parseVaultMetadata] at parsed ⊢
    generalize Json.get record (units "color") = found at parsed ⊢
    rcases found with _ | (_ | _ | _ | color | _ | _)
    · exact parsed
    · cases parsed
    · cases parsed
    · cases parsed
    · dsimp only at parsed ⊢
      cases normalized : normalizeFolderMetadataColor color with
      | none =>
          rw [normalized] at parsed
          cases parsed
      | some stored =>
          rw [normalized] at parsed
          exact parsed
    · cases parsed
    · cases parsed

theorem parseVaultIdentity_file {raw file : JsString} {identity : VaultIdentity}
    (parsed : parseVaultIdentity raw file = .ok identity) (other : JsString) :
    parseVaultIdentity raw other = .ok identity := by
  rw [parseVaultIdentity] at parsed ⊢
  generalize Json.parse raw = found at parsed ⊢
  rcases found with _ | (_ | _ | _ | _ | _ | record)
  · cases parsed
  · cases parsed
  · cases parsed
  · cases parsed
  · cases parsed
  · cases parsed
  · dsimp only at parsed ⊢
    generalize Json.get record (units "id") = found at parsed ⊢
    rcases found with _ | (_ | _ | _ | id | _ | _)
    · cases parsed
    · cases parsed
    · cases parsed
    · cases parsed
    · dsimp only at parsed ⊢
      split_ifs at parsed ⊢ with blank
      cases read : parseVaultMetadata (Json.get record (units "metadata")) file with
      | error message =>
          rw [read] at parsed
          cases parsed
      | ok metadata =>
          rw [read] at parsed
          rw [parseVaultMetadata_file read other]
          exact parsed
    · cases parsed
    · cases parsed

/-- What is parsed is legible. -/
theorem legible_of_parse {raw file : JsString} {identity : VaultIdentity}
    (parsed : parseVaultIdentity raw file = .ok identity) : identity.Legible := by
  unfold parseVaultIdentity at parsed
  split at parsed
  · cases parsed
  · rename_i record _
    split at parsed
    · rename_i id _
      by_cases blank : trim id = []
      · rw [if_pos blank] at parsed
        cases parsed
      · rw [if_neg blank] at parsed
        cases found : parseVaultMetadata (Json.get record (units "metadata")) file with
        | error message =>
            rw [found] at parsed
            cases parsed
        | ok metadata =>
            rw [found] at parsed
            cases parsed
            refine ⟨blank, ?_, ?_⟩
            · dsimp only
              unfold displayNameOf
              split
              · split
                · exact blank
                · assumption
              · exact blank
            · intro stored some
              dsimp only at some
              subst some
              unfold parseVaultMetadata at found
              split at found
              · cases found
              · split at found
                · cases found
                · split at found
                  · cases found
                  · rename_i normalized normal
                    cases found
                    exact ⟨normalized, rfl, normalColor_of_normalize normal⟩
                · cases found
              · cases found
    · cases parsed
  · cases parsed

end Kb1Daemon
