import Mathlib.Data.List.Sections
import Kb1Daemon.Client.UrlPath
import Kb1Daemon.Foundation.Occurrences
import Kb1Daemon.Vault.Artifact

/-! # The routes of documents

The client encodes a vault and a path into the URL of a socket or of a page; the daemon and the
page read them back. The daemon finds the vault and the path of a document exactly when the vault
has a name that is not escaped (`resolveWebSocketTarget_url`); the page always finds both
(`parseVaultRoute_route`).
-/

namespace Kb1Daemon

open JsString Uri

def encodeVaultPath (documentPath : JsString) : Option JsString :=
  ((documentPath.splitOn slash).mapM encodeURIComponent).map (Segments.joined slash)

/-- The reference that the URL of a document's socket is made from. -/
def yjsWebSocketUrl (vaultId documentPath : JsString) : Option JsString := do
  let vault ← encodeURIComponent vaultId
  let path ← encodeVaultPath documentPath
  return units "/api/vaults/" ++ vault ++ units "/files/" ++ path ++ units "/yjs"

def vaultRoute (vaultId documentPath : JsString) : Option JsString := do
  let vault ← encodeURIComponent vaultId
  if documentPath = [] then return slash :: vault
  else
    let path ← encodeVaultPath documentPath
    return slash :: vault ++ slash :: path

/-- The vault and the path of a page; it throws on an escape that is not one. -/
def parseVaultRoute (pathname : JsString) : Option (Option JsString × JsString) :=
  let trimmed := pathname.dropWhile (· = slash)
  if trimmed = [] then some (none, [])
  else
    match trimmed.idxOf? slash with
    | none => (decodeURIComponent trimmed).map fun vaultId => (some vaultId, [])
    | some place => do
        let vaultId ← decodeURIComponent (trimmed.take place)
        let path ← ((trimmed.drop (place + 1)).splitOn slash).mapM decodeURIComponent
        return (some vaultId, Segments.joined slash path)

/-- The vault and the raw path between the parts of a scoped path. -/
def parseScopedFilesPath (pathWithoutYjs : JsString) : Option (JsString × JsString) :=
  if (units "/api/vaults/").isPrefixOf pathWithoutYjs then
    let rest := pathWithoutYjs.drop (units "/api/vaults/").length
    match List.searchFrom rest (units "/files/") 0 with
    | none => none
    | some place =>
        let rawPath := rest.drop (place + (units "/files/").length)
        if place = 0 ∨ rawPath = [] then none else some (rest.take place, rawPath)
  else none

def safeValidateFilePath (toLowerCase : JsString → JsString) (rawPath : JsString) :
    Option JsString :=
  (decodeURIComponent rawPath).filter fun filePath =>
    validateVaultPath filePath .file && (classifyArtifactPath toLowerCase filePath).editable

/-- The vault and the document of a pathname; the vault must be registered. -/
def resolveWebSocketTarget (toLowerCase : JsString → JsString) (registered : JsString → Bool)
    (pathname : JsString) : Option (JsString × JsString) :=
  if (units "/yjs").isSuffixOf pathname then do
    let address ← parseScopedFilesPath (pathname.take (pathname.length - (units "/yjs").length))
    if registered address.1 then
      (safeValidateFilePath toLowerCase address.2).map fun documentPath => (address.1, documentPath)
    else none
  else none

section Component

variable {text component : JsString}

/-- A unit of a component. -/
def isComponentUnit (unit : CodeUnit) : Bool :=
  (unit < 128 && isUnreserved unit.toNat) || isEscapeUnit unit

theorem component_units (encoded : encodeURIComponent text = some component) :
    ∀ unit ∈ component, isComponentUnit unit = true := by
  obtain ⟨values, known, rfl⟩ := Option.map_eq_some_iff.mp encoded
  intro unit member
  unfold isComponentUnit
  rw [Bool.or_eq_true]
  rcases mem_escaped member with ⟨value, _, kept, inner⟩ | escape
  · left
    have small := lt_of_isUnreserved kept
    have number : (UInt16.ofNat value).toNat = value :=
      UInt16.toNat_ofNat_of_lt' (Nat.lt_trans small (by decide))
    rw [Utf8.codePointUnits, if_pos (by omega), List.mem_singleton] at inner
    rw [inner, number, kept, Bool.and_true, decide_eq_true_eq, UInt16.lt_iff_toNat_lt, number]
    exact small
  · exact .inr escape

/-- The units that are folded to one. -/
def spellings (unit : CodeUnit) : List CodeUnit :=
  if 97 ≤ unit ∧ unit ≤ 122 then [unit, unit - 32] else [unit]

/-- A unit of a component stands in a path, and is spelled as what is folded to it. -/
theorem path_of_component {unit : CodeUnit} (known : isComponentUnit unit = true) :
    UrlPath.isPathUnit unit = true ∧ unit ∈ spellings (foldUnit unit) := by
  have bound : unit.toNat < 128 := by
    unfold isComponentUnit isEscapeUnit at known
    simp only [Bool.or_eq_true, Bool.and_eq_true, decide_eq_true_eq, UInt16.lt_iff_toNat_lt,
      UInt16.le_iff_toNat_le] at known
    rcases known with kept | (rfl | digit) | letter
    · exact kept.1
    · decide
    · exact Nat.lt_of_le_of_lt digit.2 (by decide)
    · exact Nat.lt_of_le_of_lt letter.2 (by decide)
  have small : ∀ value < 128, isComponentUnit (UInt16.ofNat value) = true →
      UrlPath.isPathUnit (UInt16.ofNat value) = true ∧
        UInt16.ofNat value ∈ spellings (foldUnit (UInt16.ofNat value)) := by
    decide +kernel
  rw [← @UInt16.ofNat_toNat unit] at known ⊢
  exact small unit.toNat bound known

theorem slash_notMem_component (encoded : encodeURIComponent text = some component) :
    slash ∉ component := by
  intro member
  have path := (path_of_component (component_units encoded slash member)).1
  exact Bool.false_ne_true path

theorem component_ne_nil (encoded : encodeURIComponent text = some component)
    (some : text ≠ []) : component ≠ [] := by
  rintro rfl
  exact some (Option.some.inj (decodeURIComponent_encodeURIComponent encoded)).symm

/-- A component whose folded text always decodes to one text stands for that text. -/
theorem text_of_folded (encoded : encodeURIComponent text = some component) {whole : JsString}
    (same : ∀ spelled ∈ ((component.map foldUnit).map spellings).sections,
      decodeURIComponent spelled = some whole) : text = whole := by
  refine Option.some.inj ((decodeURIComponent_encodeURIComponent encoded).symm.trans
    (same component ?_))
  rw [List.mem_sections, List.map_map, List.forall₂_map_right_iff, List.forall₂_same]
  intro unit member
  exact (path_of_component (component_units encoded unit member)).2

/-- The component of a name other than the dots stands in a path as it is. -/
theorem clean_component (encoded : encodeURIComponent text = some component)
    (single : text ≠ [dot]) (double : text ≠ [dot, dot]) : UrlPath.CleanSegment component where
  kept := fun unit member => (path_of_component (component_units encoded unit member)).1
  single := by
    have spelled : ∀ folded ∈ [".", "%2e"].map units,
        ∀ spelled ∈ (folded.map spellings).sections, decodeURIComponent spelled = some [dot] := by
      decide
    refine decide_eq_false fun listed => single (text_of_folded encoded ?_)
    exact spelled _ listed
  double := by
    have spelled : ∀ folded ∈ ["..", ".%2e", "%2e.", "%2e%2e"].map units,
        ∀ spelled ∈ (folded.map spellings).sections,
          decodeURIComponent spelled = some [dot, dot] := by
      decide
    refine decide_eq_false fun listed => double (text_of_folded encoded ?_)
    exact spelled _ listed

end Component

section Path

variable {documentPath text : JsString} {segments components : List JsString}

/-- The segments and their components. -/
def Components (segments components : List JsString) : Prop :=
  List.Forall₂ (fun segment component => encodeURIComponent segment = some component)
    segments components

theorem mapM_eq_some_iff {Item Result : Type} {f : Item → Option Result} {items : List Item}
    {results : List Result} :
    items.mapM f = some results ↔ List.Forall₂ (fun item result => f item = some result) items
      results := by
  induction items generalizing results with
  | nil =>
      rw [List.mapM_nil, List.forall₂_nil_left_iff]
      exact ⟨fun same => (Option.some.inj same).symm, fun same => same ▸ rfl⟩
  | cons item items ih =>
      rw [List.mapM_cons, List.forall₂_cons_left_iff]
      simp only [Option.bind_eq_bind, Option.bind_eq_some_iff, Option.pure_def, Option.some.injEq,
        ih]
      constructor
      · rintro ⟨first, own, others, rest, rfl⟩
        exact ⟨first, others, own, rest, rfl⟩
      · rintro ⟨first, others, own, rest, rfl⟩
        exact ⟨first, own, others, rest, rfl⟩

theorem encodeVaultPath_eq_some_iff :
    encodeVaultPath documentPath = some text ↔
      ∃ components, Components (documentPath.splitOn slash) components ∧
        Segments.joined slash components = text := by
  rw [encodeVaultPath, Option.map_eq_some_iff]
  exact exists_congr fun components => and_congr_left fun _ => mapM_eq_some_iff

theorem Components.ne_nil (pairs : Components segments components) (some : segments ≠ []) :
    components ≠ [] := by
  rintro rfl
  exact some (List.forall₂_nil_right_iff.mp pairs)

theorem Components.encoded (pairs : Components segments components) {component : JsString}
    (listed : component ∈ components) :
    ∃ segment ∈ segments, encodeURIComponent segment = .some component := by
  induction pairs with
  | nil => exact absurd listed List.not_mem_nil
  | cons own _ ih =>
      rcases List.mem_cons.mp listed with rfl | listed
      · exact ⟨_, List.mem_cons_self, own⟩
      · obtain ⟨segment, member, encoded⟩ := ih listed
        exact ⟨segment, List.mem_cons_of_mem _ member, encoded⟩

/-- No component has a slash. -/
theorem Components.apart (pairs : Components segments components) :
    ∀ component ∈ components, slash ∉ component := by
  intro component listed
  obtain ⟨segment, _, encoded⟩ := pairs.encoded listed
  exact slash_notMem_component encoded

theorem Components.clean (pairs : Components segments components)
    (named : ∀ segment ∈ segments, segment ≠ [dot] ∧ segment ≠ [dot, dot]) :
    ∀ component ∈ components, UrlPath.CleanSegment component := by
  intro component listed
  obtain ⟨segment, member, encoded⟩ := pairs.encoded listed
  obtain ⟨single, double⟩ := named segment member
  exact clean_component encoded single double

/-- The components decode one by one. -/
theorem Components.decoded (pairs : Components segments components) :
    components.mapM decodeURIComponent = .some segments :=
  mapM_eq_some_iff.mpr (pairs.flip.imp fun _ _ => decodeURIComponent_encodeURIComponent)

/-- Units that stand in the path of a URL: those of components, and the slash. -/
def keptInPath (value : Nat) : Bool := isUnreserved value || value = slash.toNat

theorem Components.encode_joined (pairs : Components segments components) (some : segments ≠ [])
    (apart : ∀ segment ∈ segments, slash ∉ segment) :
    encode keptInPath (Segments.joined slash segments) =
      .some (Segments.joined slash components) := by
  have plain : Utf8.isSurrogate slash = false := by decide
  induction pairs with
  | nil => exact absurd rfl some
  | @cons segment component segments components own rest ih =>
      obtain ⟨free, others⟩ := List.forall_mem_cons.mp apart
      have first : encode keptInPath segment = .some component :=
        (encode_or plain free).trans own
      cases rest with
      | nil => rwa [Segments.joined_singleton, Segments.joined_singleton]
      | cons next rest =>
          rw [Segments.joined_cons_cons, Segments.joined_cons_cons,
            encode_append_cons plain (by decide), first,
            ih (List.cons_ne_nil _ _) others]
          rfl

/-- The path of a document also decodes as a whole. -/
theorem decodeURIComponent_encodeVaultPath
    (pairs : Components (documentPath.splitOn slash) components) :
    decodeURIComponent (Segments.joined slash components) = .some documentPath := by
  have whole := pairs.encode_joined (List.splitOn_ne_nil slash documentPath)
    (Segments.not_mem_of_mem_splitOn documentPath)
  rw [Segments.joined_splitOn] at whole
  exact decodeURIComponent_encode (by decide) whole

end Path

section Socket

variable {vaultId documentPath url vault query : JsString} {components : List JsString}
  {toLowerCase : JsString → JsString} {registered : JsString → Bool}

theorem yjsWebSocketUrl_eq_some_iff :
    yjsWebSocketUrl vaultId documentPath = some url ↔
      ∃ vault, encodeURIComponent vaultId = some vault ∧
        ∃ components, Components (documentPath.splitOn slash) components ∧
          units "/api/vaults/" ++ vault ++ units "/files/" ++ Segments.joined slash components ++
            units "/yjs" = url := by
  rw [yjsWebSocketUrl]
  simp only [Option.bind_eq_bind, Option.bind_eq_some_iff, Option.pure_def, Option.some.injEq,
    encodeVaultPath_eq_some_iff]
  constructor
  · rintro ⟨vault, own, _, ⟨components, pairs, rfl⟩, same⟩
    exact ⟨vault, own, components, pairs, same⟩
  · rintro ⟨vault, own, components, pairs, same⟩
    exact ⟨vault, own, _, ⟨components, pairs, rfl⟩, same⟩

/-- The segments of the URL of a socket. -/
def socketSegments (vault : JsString) (components : List JsString) : List JsString :=
  units "api" :: units "vaults" :: vault :: units "files" :: components ++ [units "yjs"]

theorem flatMap_socketSegments (some : components ≠ []) :
    (socketSegments vault components).flatMap (slash :: ·) =
      units "/api/vaults/" ++ vault ++ units "/files/" ++ Segments.joined slash components ++
        units "/yjs" := by
  have front : units "/api/vaults/" =
      slash :: units "api" ++ slash :: units "vaults" ++ [slash] := by
    decide
  have middle : units "/files/" = slash :: units "files" ++ [slash] := by decide
  have last : units "/yjs" = slash :: units "yjs" := by decide
  rw [socketSegments, List.flatMap_append, List.flatMap_cons, List.flatMap_cons, List.flatMap_cons,
    List.flatMap_cons, UrlPath.flatMap_slash some, List.flatMap_singleton, front, middle, last]
  simp only [List.append_assoc, List.cons_append, List.nil_append]

theorem clean_socketSegments (own : UrlPath.CleanSegment vault)
    (clean : ∀ component ∈ components, UrlPath.CleanSegment component) :
    ∀ segment ∈ socketSegments vault components, UrlPath.CleanSegment segment := by
  have constant : ∀ word ∈ ["api", "vaults", "files", "yjs"],
      UrlPath.CleanSegment (units word) := by
    have checked : ∀ word ∈ ["api", "vaults", "files", "yjs"],
        (units word).all UrlPath.isPathUnit = true ∧ UrlPath.isSingleDot (units word) = false ∧
          UrlPath.isDoubleDot (units word) = false := by
      decide
    intro word listed
    obtain ⟨kept, single, double⟩ := checked word listed
    exact ⟨List.all_eq_true.mp kept, single, double⟩
  intro segment listed
  rcases List.mem_append.mp listed with listed | listed
  · simp only [List.mem_cons] at listed
    rcases listed with rfl | rfl | rfl | rfl | listed
    · exact constant _ (by decide)
    · exact constant _ (by decide)
    · exact own
    · exact constant _ (by decide)
    · exact clean segment listed
  · rw [List.mem_singleton.mp listed]
    exact constant _ (by decide)

/-- The vault in a scoped path is what is between its parts. -/
theorem parseScopedFilesPath_append (some : vault ≠ []) (apart : slash ∉ vault)
    {rawPath : JsString} (path : rawPath ≠ []) :
    parseScopedFilesPath (units "/api/vaults/" ++ vault ++ units "/files/" ++ rawPath) =
      .some (vault, rawPath) := by
  have front : (units "/api/vaults/").isPrefixOf
      (units "/api/vaults/" ++ vault ++ units "/files/" ++ rawPath) = true := by
    rw [List.isPrefixOf_iff_prefix, List.append_assoc, List.append_assoc]
    exact List.prefix_append _ _
  have place : List.searchFrom (vault ++ units "/files/" ++ rawPath) (units "/files/") 0 =
      .some vault.length :=
    List.searchFrom_append apart (units "files/") rawPath
  have rest : (units "/api/vaults/" ++ vault ++ units "/files/" ++ rawPath).drop
      (units "/api/vaults/").length = vault ++ units "/files/" ++ rawPath := by
    rw [List.append_assoc, List.append_assoc, List.drop_left, ← List.append_assoc]
  have behind : (vault ++ units "/files/" ++ rawPath).drop
      (vault.length + (units "/files/").length) = rawPath := by
    rw [← List.length_append, List.drop_left]
  have named : ¬(vault.length = 0 ∨ rawPath = []) := by
    rw [List.length_eq_zero_iff]
    exact not_or.mpr ⟨some, path⟩
  rw [parseScopedFilesPath, if_pos front]
  dsimp only
  rw [rest, place]
  dsimp only
  rw [behind, if_neg named, List.append_assoc, List.take_left]

/-- The daemon takes the component of a vault for its name. -/
theorem resolveWebSocketTarget_encoded (some : vault ≠ []) (apart : slash ∉ vault)
    (pairs : Components (documentPath.splitOn slash) components) (path : documentPath ≠ []) :
    resolveWebSocketTarget toLowerCase registered
        (units "/api/vaults/" ++ vault ++ units "/files/" ++ Segments.joined slash components ++
          units "/yjs") =
      if registered vault = true ∧ validateVaultPath documentPath .file = true ∧
          (classifyArtifactPath toLowerCase documentPath).editable = true then
        .some (vault, documentPath)
      else none := by
  have decoded := decodeURIComponent_encodeVaultPath pairs
  have path : Segments.joined slash components ≠ [] := by
    intro empty
    rw [empty] at decoded
    exact path (Option.some.inj decoded).symm
  have ends : (units "/yjs").isSuffixOf (units "/api/vaults/" ++ vault ++ units "/files/" ++
      Segments.joined slash components ++ units "/yjs") = true := by
    rw [List.isSuffixOf_iff_suffix]
    exact List.suffix_append _ _
  rw [resolveWebSocketTarget, if_pos ends, List.length_append, Nat.add_sub_cancel, List.take_left,
    parseScopedFilesPath_append some apart path]
  change (if registered vault = true then (safeValidateFilePath toLowerCase _).map _ else none) = _
  rw [safeValidateFilePath, decoded]
  by_cases known : registered vault = true
  · rw [if_pos known, Option.filter_some]
    by_cases valid : validateVaultPath documentPath .file = true ∧
        (classifyArtifactPath toLowerCase documentPath).editable = true
    · rw [if_pos (Bool.and_eq_true_iff.mpr valid), if_pos ⟨known, valid⟩]
      rfl
    · rw [if_neg (mt Bool.and_eq_true_iff.mp valid), if_neg (fun all => valid all.2)]
      rfl
  · rw [if_neg known, if_neg (fun all => known all.1)]

/-- A name that a path keeps: not empty, and not the dots. -/
def IsName (text : JsString) : Prop := text ≠ [] ∧ text ≠ [dot] ∧ text ≠ [dot, dot]

instance (text : JsString) : Decidable (IsName text) := inferInstanceAs (Decidable (_ ∧ _))

theorem segments_named {kind : VaultPathKind} (valid : validateVaultPath documentPath kind = true) :
    ∀ segment ∈ documentPath.splitOn slash, segment ≠ [dot] ∧ segment ≠ [dot, dot] := by
  intro segment listed
  unfold validateVaultPath at valid
  simp only [Bool.and_eq_true] at valid
  have checked := List.all_eq_true.mp valid.1.2 segment listed
  unfold validSegment at checked
  simp only [Bool.and_eq_true, bne_iff_ne] at checked
  exact ⟨checked.1.1.1.2, checked.1.1.2⟩

/-- **The document of a socket.** The pathname that the client makes for a document, with any query
behind it, leads the daemon to that document exactly when the vault is registered under a name of
unreserved units and the document can be edited. -/
theorem resolveWebSocketTarget_url (encoded : yjsWebSocketUrl vaultId documentPath = some url)
    (named : IsName vaultId) (valid : validateVaultPath documentPath .file = true)
    (mark : UrlPath.IsQuery query) :
    resolveWebSocketTarget toLowerCase registered
        (UrlPath.pathname (UrlPath.pathname url ++ query)) = some (vaultId, documentPath) ↔
      registered vaultId = true ∧ (∀ unit ∈ vaultId, isUnreserved unit.toNat = true) ∧
        (classifyArtifactPath toLowerCase documentPath).editable = true := by
  obtain ⟨vault, own, components, pairs, rfl⟩ := yjsWebSocketUrl_eq_some_iff.mp encoded
  have some := pairs.ne_nil (List.splitOn_ne_nil slash documentPath)
  have clean := clean_socketSegments (clean_component own named.2.1 named.2.2)
    (pairs.clean (segments_named valid))
  have nonempty : socketSegments vault components ≠ [] := List.cons_ne_nil _ _
  rw [← flatMap_socketSegments some,
    ← List.append_nil ((socketSegments vault components).flatMap (slash :: ·)),
    UrlPath.pathname_clean nonempty clean (.inl rfl), UrlPath.pathname_clean nonempty clean mark,
    flatMap_socketSegments some,
    resolveWebSocketTarget_encoded (component_ne_nil own named.1) (slash_notMem_component own)
      pairs (validateVaultPath_ne_nil valid), ← encodeURIComponent_eq_self_iff, own]
  constructor
  · intro found
    split_ifs at found with all
    obtain ⟨rfl, _⟩ := Prod.mk.inj (Option.some.inj found)
    exact ⟨all.1, rfl, all.2.2⟩
  · rintro ⟨known, same, editable⟩
    cases same
    rw [if_pos ⟨known, valid, editable⟩]

/-- The path of a document may be escaped, the name of its vault may not. -/
theorem resolveWebSocketTarget_url_escaped :
    ∃ url, yjsWebSocketUrl (units "notes") (units "50%/é.md") = some url ∧
      resolveWebSocketTarget id (fun _ => true) (UrlPath.pathname (UrlPath.pathname url ++ [])) =
        some (units "notes", units "50%/é.md") := by
  have encoded : yjsWebSocketUrl (units "notes") (units "50%/é.md") =
      some (units "/api/vaults/notes/files/50%25/%C3%A9.md/yjs") := by
    decide
  exact ⟨_, encoded, (resolveWebSocketTarget_url encoded (by decide) (by decide)
    (.inl rfl)).mpr ⟨rfl, List.all_eq_true.mp (by decide), by decide⟩⟩

end Socket

section Page

variable {vaultId documentPath route vault query : JsString} {components : List JsString}

/-- The route of a page, as segments. -/
theorem vaultRoute_segments (encoded : vaultRoute vaultId documentPath = some route) :
    ∃ vault components, encodeURIComponent vaultId = some vault ∧
      Components (documentPath.splitOn slash) components ∧
        (if documentPath = [] then [vault] else vault :: components).flatMap (slash :: ·) =
          route := by
  rw [vaultRoute] at encoded
  obtain ⟨vault, own, rest⟩ := Option.bind_eq_some_iff.mp encoded
  by_cases root : documentPath = []
  · rw [if_pos root] at rest
    cases rest
    subst root
    refine ⟨vault, [[]], own, .cons rfl .nil, ?_⟩
    rw [if_pos rfl, List.flatMap_singleton]
  · rw [if_neg root] at rest
    obtain ⟨text, found, same⟩ := Option.bind_eq_some_iff.mp rest
    obtain ⟨components, pairs, rfl⟩ := encodeVaultPath_eq_some_iff.mp found
    cases same
    refine ⟨vault, components, own, pairs, ?_⟩
    rw [if_neg root, List.flatMap_cons,
      UrlPath.flatMap_slash (pairs.ne_nil (List.splitOn_ne_nil slash documentPath))]

theorem dropWhile_slash {rest : JsString} (some : vault ≠ []) (apart : slash ∉ vault) :
    (slash :: vault ++ rest).dropWhile (· = slash) = vault ++ rest := by
  obtain ⟨first, others, rfl⟩ := List.exists_cons_of_ne_nil some
  have other : first ≠ slash := fun same => apart (same ▸ List.mem_cons_self)
  rw [List.cons_append, List.dropWhile_cons_of_pos (by decide), List.cons_append,
    List.dropWhile_cons_of_neg (by rw [decide_eq_true_eq]; exact other)]

/-- A page without a document. -/
theorem parseVaultRoute_vault (own : encodeURIComponent vaultId = some vault)
    (named : vaultId ≠ []) : parseVaultRoute (slash :: vault) = some (some vaultId, []) := by
  have some := component_ne_nil own named
  have apart := slash_notMem_component own
  have trimmed := @dropWhile_slash vault [] some apart
  rw [List.append_nil, List.append_nil] at trimmed
  rw [parseVaultRoute, trimmed, if_neg some, List.idxOf?_eq_none_iff.mpr apart]
  dsimp only
  rw [decodeURIComponent_encodeURIComponent own]
  rfl

/-- A page of a document. -/
theorem parseVaultRoute_document (own : encodeURIComponent vaultId = some vault)
    (named : vaultId ≠ []) (pairs : Components (documentPath.splitOn slash) components) :
    parseVaultRoute (slash :: vault ++ slash :: Segments.joined slash components) =
      some (some vaultId, documentPath) := by
  have some := component_ne_nil own named
  have apart := slash_notMem_component own
  have place : (vault ++ slash :: Segments.joined slash components).idxOf? slash =
      .some vault.length := by
    rw [List.idxOf?_eq_some_iff]
    refine ⟨by rw [List.length_append]; exact Nat.lt_add_of_pos_right (Nat.succ_pos _), ?_, ?_⟩
    · rw [List.getElem_append_right (Nat.le_refl _)]
      simp only [Nat.sub_self, List.getElem_cons_zero]
    · intro earlier before same
      rw [List.getElem_append_left before] at same
      exact apart (same ▸ List.getElem_mem before)
  have split : (Segments.joined slash components).splitOn slash = components :=
    List.splitOn_intercalate slash pairs.apart
      (pairs.ne_nil (List.splitOn_ne_nil slash documentPath))
  rw [parseVaultRoute, dropWhile_slash some apart,
    if_neg (List.append_ne_nil_of_left_ne_nil some _), place]
  dsimp only
  rw [List.take_left, decodeURIComponent_encodeURIComponent own, ← List.drop_drop, List.drop_left,
    List.drop_succ_cons, List.drop_zero, split, pairs.decoded]
  dsimp only [Option.bind_eq_bind, Option.bind_some, Option.pure_def]
  rw [Segments.joined_splitOn]

/-- **The page of a document.** The route of a vault, or of a document whose path has no dot
segment, leads the page back to them, with any query behind it. -/
theorem parseVaultRoute_route (encoded : vaultRoute vaultId documentPath = some route)
    (named : IsName vaultId)
    (plain : ∀ segment ∈ documentPath.splitOn slash, segment ≠ [dot] ∧ segment ≠ [dot, dot])
    (mark : UrlPath.IsQuery query) :
    parseVaultRoute (UrlPath.pathname (route ++ query)) = some (some vaultId, documentPath) := by
  obtain ⟨vault, components, own, pairs, rfl⟩ := vaultRoute_segments encoded
  have clean := clean_component own named.2.1 named.2.2
  have others := pairs.clean plain
  by_cases root : documentPath = []
  · rw [if_pos root, UrlPath.pathname_clean (List.cons_ne_nil _ _)
      (List.forall_mem_singleton.mpr clean) mark, List.flatMap_singleton, root]
    exact parseVaultRoute_vault own named.1
  · rw [if_neg root, UrlPath.pathname_clean (List.cons_ne_nil _ _)
      (List.forall_mem_cons.mpr ⟨clean, others⟩) mark, List.flatMap_cons,
      UrlPath.flatMap_slash (pairs.ne_nil (List.splitOn_ne_nil slash documentPath))]
    exact parseVaultRoute_document own named.1 pairs

/-- A page whose names are escaped. -/
theorem parseVaultRoute_route_escaped :
    ∃ route, vaultRoute (units "a b") (units "50%/é.md") = some route ∧
      parseVaultRoute (UrlPath.pathname (route ++ units "?x")) =
        some (some (units "a b"), units "50%/é.md") := by
  have encoded : vaultRoute (units "a b") (units "50%/é.md") =
      some (units "/a%20b/50%25/%C3%A9.md") := by
    decide
  exact ⟨_, encoded, parseVaultRoute_route encoded (by decide) (by decide)
    (.inr (by decide))⟩

end Page

end Kb1Daemon
