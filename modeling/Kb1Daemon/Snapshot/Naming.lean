import Kb1Daemon.Snapshot.Paths

/-! # Names within one directory

The siblings of a directory get names with different keys (`portableKey_apart`), all of them
portable (`isPortable_portableName`): a generated name is a string of ASCII whose key carries
the whole digest, and a segment that is kept cannot have such a key, since it would be read
as reserved (`isReserved_of_key`).
-/

namespace Kb1Daemon

open JsString

/-- The units of a generated name: letters, digits, the hyphen, the tilde and the full stop. -/
def isGeneratedUnit (unit : CodeUnit) : Bool :=
  isDigit unit || (65 ≤ unit && unit ≤ 90) || (97 ≤ unit && unit ≤ 122) ||
    unit ∈ ([45, 46, 126] : List CodeUnit)

/-- A fact about the units of generated names is checked on ASCII. -/
theorem forall_generatedUnit {fact : CodeUnit → Bool}
    (checked : ∀ value < 128, isGeneratedUnit (UInt16.ofNat value) = true →
      fact (UInt16.ofNat value) = true)
    {unit : CodeUnit} (generated : isGeneratedUnit unit = true) : fact unit = true := by
  have low : unit.toNat < 128 := by
    simp only [isGeneratedUnit, isDigit, Bool.or_eq_true, Bool.and_eq_true, decide_eq_true_eq,
      UInt16.le_iff_toNat_le, List.mem_cons, List.not_mem_nil, or_false] at generated
    rcases generated with ((⟨_, digit⟩ | ⟨_, upper⟩) | ⟨_, lower⟩) | rfl | rfl | rfl
    · exact Nat.lt_of_le_of_lt digit (by decide)
    · exact Nat.lt_of_le_of_lt upper (by decide)
    · exact Nat.lt_of_le_of_lt lower (by decide)
    · decide
    · decide
    · decide
  rw [← @UInt16.ofNat_toNat unit] at generated ⊢
  exact checked _ low generated

theorem isAscii_of_generated {unit : CodeUnit} (generated : isGeneratedUnit unit = true) :
    isAscii unit = true :=
  forall_generatedUnit (by decide) generated

theorem isGenerated_of_hex {unit : CodeUnit} (hex : isHexDigit unit = true) :
    isGeneratedUnit unit = true := by
  simp only [isHexDigit, isGeneratedUnit, Bool.or_eq_true, Bool.and_eq_true, decide_eq_true_eq,
    UInt16.le_iff_toNat_le] at hex ⊢
  rcases hex with digit | ⟨least, greatest⟩
  · exact .inl (.inl (.inl digit))
  · exact .inl (.inr ⟨least, Nat.le_trans greatest (by decide)⟩)

theorem lowerUnit_of_hex {unit : CodeUnit} (hex : isHexDigit unit = true) :
    lowerUnit unit = unit := by
  have low : unit.toNat < 128 := by
    have ascii := isAscii_of_generated (isGenerated_of_hex hex)
    exact UInt16.lt_iff_toNat_lt.mp (of_decide_eq_true ascii)
  have checked : ∀ value < 128, isHexDigit (UInt16.ofNat value) = true →
      lowerUnit (UInt16.ofNat value) = UInt16.ofNat value := by decide
  rw [← @UInt16.ofNat_toNat unit] at hex ⊢
  exact checked _ low hex

/-- A kept extension is a full stop with letters and digits after it. -/
theorem keepsExtension_spec {extension : JsString} (kept : keepsExtension extension = true) :
    ∃ rest, extension = dot :: rest ∧ rest ≠ [] ∧
      ∀ unit ∈ rest, isGeneratedUnit unit = true ∧ unit ≠ dot := by
  cases extension with
  | nil => cases kept
  | cons mark rest =>
      simp only [keepsExtension, Bool.and_eq_true, decide_eq_true_eq, List.all_eq_true] at kept
      obtain ⟨⟨⟨rfl, some⟩, _⟩, all⟩ := kept
      refine ⟨rest, rfl, List.length_pos_iff.mp some, fun unit member => ?_⟩
      have listed := all unit member
      simp only [foldUnit, Bool.or_eq_true, Bool.and_eq_true, decide_eq_true_eq] at listed
      constructor
      · simp only [isGeneratedUnit, Bool.or_eq_true, Bool.and_eq_true, decide_eq_true_eq]
        split at listed
        · rename_i upper
          exact .inl (.inl (.inr upper))
        · rcases listed with lower | digit
          · exact .inl (.inr lower)
          · exact .inl (.inl (.inl digit))
      · rintro rfl
        rcases listed with letter | digit
        · exact absurd letter (by decide)
        · exact absurd digit (by decide)

namespace SnapshotHost

variable (host : SnapshotHost)

/-- The part of a generated name before the extension has no full stop. -/
theorem generatedName_shape (segment : JsString) :
    ∃ extension, host.generatedName segment =
        encodedSegmentPrefix ++ (host.sha256 segment ++ extension) ∧
      (extension = [] ∨ ∃ rest, extension = dot :: rest ∧ rest ≠ [] ∧
        ∀ unit ∈ rest, isGeneratedUnit unit = true ∧ unit ≠ dot) := by
  unfold generatedName
  split
  · rename_i kept
    exact ⟨_, List.append_assoc _ _ _, .inr (keepsExtension_spec kept)⟩
  · exact ⟨[], by simp, .inl rfl⟩

theorem isGenerated_generatedName (segment : JsString) :
    ∀ unit ∈ host.generatedName segment, isGeneratedUnit unit = true := by
  obtain ⟨extension, same, shape⟩ := host.generatedName_shape segment
  rw [same]
  intro unit member
  rcases List.mem_append.mp member with front | member
  · exact List.all_eq_true.mp (by decide : encodedSegmentPrefix.all isGeneratedUnit = true) unit front
  · rcases List.mem_append.mp member with digest | member
    · exact isGenerated_of_hex (host.sha256_hex segment unit digest)
    · rcases shape with rfl | ⟨rest, rfl, _, all⟩
      · cases member
      · rcases List.mem_cons.mp member with rfl | later
        · decide
        · exact (all unit later).1

theorem portableKey_ascii {text : JsString} (ascii : ∀ unit ∈ text, isAscii unit = true) :
    host.portableKey text = text.map lowerUnit := by
  rw [portableKey, host.normalizeNFC_ascii text ascii, host.toLowerCase_ascii ascii]

theorem portableKey_generatedName (segment : JsString) :
    host.portableKey (host.generatedName segment) = (host.generatedName segment).map lowerUnit :=
  host.portableKey_ascii fun unit member =>
    isAscii_of_generated (host.isGenerated_generatedName segment unit member)

/-- The key of a generated name has the digest after the prefix. -/
theorem take_portableKey (segment : JsString) :
    (host.portableKey (host.generatedName segment)).take 69 =
      encodedSegmentPrefix ++ host.sha256 segment := by
  obtain ⟨extension, same, _⟩ := host.generatedName_shape segment
  have digest : (host.sha256 segment).map lowerUnit = host.sha256 segment :=
    (List.map_congr_left fun unit member => lowerUnit_of_hex (host.sha256_hex segment unit member)).trans
      (List.map_id _)
  have front : encodedSegmentPrefix.map lowerUnit = encodedSegmentPrefix := by decide
  have long : (encodedSegmentPrefix ++ host.sha256 segment).length = 69 := by
    rw [List.length_append, host.length_sha256]
    rfl
  rw [host.portableKey_generatedName, same, List.map_append, List.map_append, digest, front,
    ← List.append_assoc, ← long, List.take_left]

theorem prefix_portableKey (segment : JsString) :
    encodedSegmentPrefix <+: host.portableKey (host.generatedName segment) := by
  have taken := List.take_prefix 69 (host.portableKey (host.generatedName segment))
  rw [host.take_portableKey] at taken
  exact (List.prefix_append _ _).trans taken

/-- **Impersonation.** A segment whose key is a string of ASCII with the reserved prefix starts
with that prefix, in some spelling. -/
theorem isReserved_of_key {segment : JsString}
    (ascii : ∀ unit ∈ host.portableKey segment, isAscii unit = true)
    (reserved : encodedSegmentPrefix <+: host.portableKey segment) :
    host.isReserved segment = true := by
  have composed : ∀ unit ∈ host.normalizeNFC segment, isAscii unit = true := by
    intro unit member
    rcases host.ascii_of_toLowerCase _ ascii unit member with small | rfl
    · exact small
    · exact absurd member (host.kelvinSign_not_mem segment)
  obtain ⟨plain, same⟩ := host.plain_of_normalizeNFC segment composed
  have key : host.portableKey segment = segment.map fun unit => lowerUnit (composedUnit unit) := by
    rw [portableKey, host.toLowerCase_ascii composed, same, List.map_map]
    rfl
  have agree : ∀ unit, isPlain unit = true → lowerUnit (composedUnit unit) ∈ encodedSegmentPrefix →
      lowerUnit unit = lowerUnit (composedUnit unit) := by
    intro unit plainUnit member
    rw [isPlain, Bool.or_eq_true, decide_eq_true_eq] at plainUnit
    rcases plainUnit with small | member'
    · rw [composedUnit_of_isAscii small]
    · rcases List.mem_cons.mp member' with rfl | member'
      · exact absurd member (by decide)
      · rcases List.mem_cons.mp member' with rfl | member'
        · exact absurd member (by decide)
        · rw [List.mem_singleton.mp member']
          decide
  rw [key] at reserved
  have front : (segment.take 5).map (fun unit => lowerUnit (composedUnit unit)) =
      encodedSegmentPrefix := by
    rw [List.map_take, ← show encodedSegmentPrefix.length = 5 from rfl]
    exact (List.prefix_iff_eq_take.mp reserved).symm
  have lowered : (segment.take 5).map lowerUnit = encodedSegmentPrefix := by
    rw [← front]
    refine List.map_congr_left fun unit member => agree unit (plain unit (List.mem_of_mem_take member)) ?_
    rw [← front]
    exact List.mem_map_of_mem (f := fun unit => lowerUnit (composedUnit unit)) member
  rw [isReserved, host.toLowerCase_plain segment plain, List.isPrefixOf_iff_prefix, ← lowered]
  exact (List.take_prefix 5 segment).map lowerUnit

variable {siblings : List JsString}

/-- When a segment is mapped. -/
theorem needsMapping_iff (nodup : siblings.Nodup) {segment : JsString} (member : segment ∈ siblings) :
    host.needsMapping siblings segment = true ↔
      isPortableSnapshotSegment segment = false ∨ host.isReserved segment = true ∨
        ∃ other ∈ siblings, other ≠ segment ∧ host.portableKey other = host.portableKey segment := by
  have several : 1 < (siblings.map host.portableKey).count (host.portableKey segment) ↔
      ∃ other ∈ siblings, other ≠ segment ∧ host.portableKey other = host.portableKey segment := by
    obtain ⟨before, after, rfl⟩ := List.append_of_mem member
    rw [List.map_append, List.map_cons, List.count_append, List.count_cons_self]
    have apart := List.nodup_middle.mp nodup
    have absent := (List.nodup_cons.mp apart).1
    constructor
    · intro more
      have positive : 0 < (before.map host.portableKey ++ after.map host.portableKey).count
          (host.portableKey segment) := by
        rw [List.count_append]
        omega
      have found := List.count_pos_iff.mp positive
      rw [← List.map_append] at found
      obtain ⟨other, listed, same⟩ := List.mem_map.mp found
      refine ⟨other, ?_, fun own => absent (own ▸ listed), same⟩
      rcases List.mem_append.mp listed with early | late
      · exact List.mem_append_left _ early
      · exact List.mem_append_right _ (List.mem_cons_of_mem _ late)
    · rintro ⟨other, listed, different, same⟩
      have found : host.portableKey segment ∈ before.map host.portableKey ++ after.map host.portableKey := by
        rw [← List.map_append, ← same]
        refine List.mem_map_of_mem ?_
        rcases List.mem_append.mp listed with early | late
        · exact List.mem_append_left _ early
        · exact List.mem_append_right _ ((List.mem_cons.mp late).resolve_left different)
      have positive := List.count_pos_iff.mpr found
      rw [List.count_append] at positive
      omega
  rw [needsMapping, Bool.or_eq_true, Bool.or_eq_true, Bool.not_eq_true', decide_eq_true_eq, several,
    or_assoc]
  constructor
  · rintro (bad | clash | reserved)
    · exact .inl bad
    · exact .inr (.inr clash)
    · exact .inr (.inl reserved)
  · rintro (bad | reserved | clash)
    · exact .inl bad
    · exact .inr (.inr reserved)
    · exact .inr (.inl clash)

/-- **Different keys.** The names of siblings have different keys. -/
theorem portableKey_apart (nodup : siblings.Nodup)
    (digests : ∀ left ∈ siblings, ∀ right ∈ siblings,
      host.sha256 left = host.sha256 right → left = right)
    {left right : JsString} (memberLeft : left ∈ siblings) (memberRight : right ∈ siblings)
    (same : host.portableKey (host.portableName siblings left) =
      host.portableKey (host.portableName siblings right)) : left = right := by
  have impersonates : ∀ generated kept : JsString, kept ∈ siblings →
      host.needsMapping siblings kept = false →
        host.portableKey (host.generatedName generated) ≠ host.portableKey kept := by
    intro generated kept member unmapped alike
    have reserved : host.isReserved kept = true := by
      apply host.isReserved_of_key
      · rw [← alike, host.portableKey_generatedName]
        intro unit listed
        obtain ⟨source, own, rfl⟩ := List.mem_map.mp listed
        exact isAscii_lowerUnit
          (isAscii_of_generated (host.isGenerated_generatedName generated source own))
      · rw [← alike]
        exact host.prefix_portableKey generated
    rw [(host.needsMapping_iff nodup member).mpr (.inr (.inl reserved))] at unmapped
    cases unmapped
  unfold portableName at same
  by_cases mappedLeft : host.needsMapping siblings left = true
  · by_cases mappedRight : host.needsMapping siblings right = true
    · rw [if_pos mappedLeft, if_pos mappedRight] at same
      have digest := congrArg (List.take 69) same
      rw [host.take_portableKey, host.take_portableKey] at digest
      exact digests left memberLeft right memberRight (List.append_cancel_left digest)
    · rw [if_pos mappedLeft, if_neg mappedRight] at same
      exact absurd same (impersonates left right memberRight (by simpa using mappedRight))
  · by_cases mappedRight : host.needsMapping siblings right = true
    · rw [if_neg mappedLeft, if_pos mappedRight] at same
      exact absurd same.symm (impersonates right left memberLeft (by simpa using mappedLeft))
    · rw [if_neg mappedLeft, if_neg mappedRight] at same
      by_contra different
      exact mappedLeft ((host.needsMapping_iff nodup memberLeft).mpr
        (.inr (.inr ⟨right, memberRight, Ne.symm different, same.symm⟩)))

/-- A generated name is portable. -/
theorem isPortable_generatedName (segment : JsString) :
    isPortableSnapshotSegment (host.generatedName segment) = true := by
  obtain ⟨extension, same, shape⟩ := host.generatedName_shape segment
  have units := host.isGenerated_generatedName segment
  have long := host.length_sha256 segment
  have valid : (host.generatedName segment).any isWindowsInvalidCharacter = false := by
    rw [List.any_eq_false]
    intro unit member
    have fine : (!isWindowsInvalidCharacter unit) = true :=
      @forall_generatedUnit (fun unit => !isWindowsInvalidCharacter unit) (by decide) unit
        (units unit member)
    simpa using fine
  have plainHex : ∀ unit ∈ host.sha256 segment, unit ≠ dot ∧ unit ≠ 32 := by
    intro unit member
    have hex := host.sha256_hex segment unit member
    constructor
    · rintro rfl
      exact absurd hex (by decide)
    · rintro rfl
      exact absurd hex (by decide)
  have ending : ∀ unit, (host.generatedName segment).getLast? = some unit → unit ≠ dot ∧ unit ≠ 32 := by
    intro unit last
    rw [same] at last
    rcases shape with rfl | ⟨rest, rfl, nonempty, all⟩
    · rw [List.append_nil, List.getLast?_append_of_ne_nil _ (by
        rw [← List.length_pos_iff, long]
        decide)] at last
      exact plainHex unit (List.mem_of_getLast? last)
    · rw [← List.append_assoc, List.getLast?_append_of_ne_nil _ (List.cons_ne_nil _ _),
        List.getLast?_cons_of_ne_nil nonempty] at last
      have own := all unit (List.mem_of_getLast? last)
      refine ⟨own.2, ?_⟩
      rintro rfl
      exact absurd own.1 (by decide)
  have basename : 69 ≤ ((host.generatedName segment).takeWhile (· ≠ dot)).length := by
    rw [same, ← List.append_assoc, List.takeWhile_append_of_pos]
    · rw [List.length_append, List.length_append, long]
      have front : encodedSegmentPrefix.length = 5 := rfl
      omega
    · intro unit member
      rw [decide_eq_true_eq]
      rcases List.mem_append.mp member with front | digest
      · rintro rfl
        exact absurd front (by decide)
      · exact (plainHex unit digest).1
  have free : isWindowsReservedBasename (host.generatedName segment) = false := by
    unfold isWindowsReservedBasename
    rw [Bool.or_eq_false_iff]
    constructor
    · rw [decide_eq_false_iff_not]
      intro reserved
      have bound : ∀ name ∈ [Kb1Daemon.units "con", Kb1Daemon.units "prn", Kb1Daemon.units "aux",
          Kb1Daemon.units "nul"], name.length < 69 := by decide
      have small := bound _ reserved
      rw [List.length_map] at small
      omega
    · rw [Bool.and_eq_false_iff, Bool.and_eq_false_iff]
      refine .inl (.inr ?_)
      rw [decide_eq_false_iff_not, List.length_map]
      omega
  rw [isPortableSnapshotSegment, valid, free]
  simp only [Bool.not_false, Bool.true_and, Bool.and_true, Bool.not_eq_true', Bool.or_eq_false_iff,
    decide_eq_false_iff_not]
  exact ⟨fun last => (ending _ last).1 rfl, fun last => (ending _ last).2 rfl⟩

/-- **Portable names.** The name of a segment is portable. -/
theorem isPortable_portableName (segment : JsString) :
    isPortableSnapshotSegment (host.portableName siblings segment) = true := by
  unfold portableName
  split
  · exact host.isPortable_generatedName segment
  · rename_i unmapped
    rw [needsMapping, Bool.or_eq_true, Bool.or_eq_true, not_or, not_or] at unmapped
    simpa using unmapped.1.1

/-- A name is a segment of a path. -/
theorem proper_portableName {segment : JsString} (proper : Segments.Proper slash segment) :
    Segments.Proper slash (host.portableName siblings segment) := by
  unfold portableName
  split
  · obtain ⟨extension, same, _⟩ := host.generatedName_shape segment
    refine ⟨?_, fun member => ?_⟩
    · rw [same]
      exact List.append_ne_nil_of_left_ne_nil (by decide) _
    · exact absurd (host.isGenerated_generatedName segment slash member) (by decide)
  · exact proper

end SnapshotHost

end Kb1Daemon
