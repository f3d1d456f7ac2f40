import Kb1Daemon.Foundation.Segments
import Kb1Daemon.Vault.Slug

/-! # What a snapshot includes

A snapshot leaves out the implementation directory of Git, the daemon's local state and every
spelling of the metadata directory but its own. Its test lowers the case of the segments,
while a vault's paths are reserved by exact segments only: the files of a vault a snapshot
includes are those below no segment whose lower case is one of the two directories'
(`snapshot_includes_iff`).
-/

namespace Kb1Daemon

open JsString

def localKb1DirectoryNames : List JsString :=
  [units "cache", units "runtime", units "secrets", units "tmp"]

def gitSegment : JsString := units ".git"
def kb1Segment : JsString := units ".kb1"

/-- `lastIndexOf`; `none` stands for -1. -/
def lastIndexOf (segments : List JsString) (segment : JsString) : Option Nat :=
  (segments.reverse.idxOf? segment).map fun back => segments.length - 1 - back

variable (host : HostText)

def isPortableSnapshotPath (path : JsString) : Bool :=
  let originalSegments := path.splitOn slash
  let segments := originalSegments.map host.toLowerCase
  let excluded :=
    match lastIndexOf segments kb1Segment with
    | none => false
    | some kb1Index =>
        originalSegments[kb1Index]? ≠ some kb1Segment ||
          (kb1Index + 1 < segments.length &&
            segments.getD (kb1Index + 1) [] ∈ localKb1DirectoryNames)
  !excluded && (lastIndexOf segments gitSegment).isNone

/-- The path of a vault's file in a snapshot. -/
def snapshotPath (slug path : JsString) : JsString :=
  units "vaults" ++ slash :: (slug ++ slash :: path)

/-- The lower case of the segment is that of no directory a snapshot leaves out. -/
def IncludedSegment (segment : JsString) : Prop :=
  host.toLowerCase segment ≠ gitSegment ∧ host.toLowerCase segment ≠ kb1Segment

theorem lastIndexOf_eq_none {segments : List JsString} {segment : JsString} :
    lastIndexOf segments segment = none ↔ segment ∉ segments := by
  rw [lastIndexOf, Option.map_eq_none_iff, List.idxOf?_eq_none_iff, List.mem_reverse]

theorem getElem?_lastIndexOf {segments : List JsString} {segment : JsString} {index : Nat}
    (found : lastIndexOf segments segment = some index) : segments[index]? = some segment := by
  obtain ⟨back, located, rfl⟩ := Option.map_eq_some_iff.mp found
  obtain ⟨inside, here, _⟩ := List.idxOf?_eq_some_iff.mp located
  rw [List.length_reverse] at inside
  rw [List.getElem_reverse] at here
  rw [List.getElem?_eq_getElem (by omega)]
  exact congrArg some here

/-- A path without the metadata directory's own segment is portable when all its segments
are included. -/
theorem isPortableSnapshotPath_iff {path : JsString} (foreign : kb1Segment ∉ path.splitOn slash) :
    isPortableSnapshotPath host path = true ↔
      ∀ segment ∈ path.splitOn slash, IncludedSegment host segment := by
  have plainIff : ∀ reserved : JsString,
      reserved ∉ (path.splitOn slash).map host.toLowerCase ↔
        ∀ segment ∈ path.splitOn slash, host.toLowerCase segment ≠ reserved := by
    intro reserved
    simp
  unfold isPortableSnapshotPath
  cases found : lastIndexOf ((path.splitOn slash).map host.toLowerCase) kb1Segment with
  | none =>
      have away := (plainIff _).mp (lastIndexOf_eq_none.mp found)
      simp only [Bool.not_false, Bool.true_and, Option.isNone_iff_eq_none, found]
      rw [lastIndexOf_eq_none, plainIff]
      exact ⟨fun apart segment member => ⟨apart segment member, away segment member⟩,
        fun included segment member => (included segment member).1⟩
  | some index =>
      have lowered := getElem?_lastIndexOf found
      rw [List.getElem?_map] at lowered
      obtain ⟨segment, here, same⟩ := Option.map_eq_some_iff.mp lowered
      have member := List.mem_of_getElem? here
      have other : segment ≠ kb1Segment := fun own => foreign (own ▸ member)
      simp only [found, here]
      constructor
      · intro portable
        simp [other] at portable
      · intro included
        exact absurd same (included segment member).2

theorem splitOn_snapshotPath {slug : JsString} (single : slash ∉ slug) (path : JsString) :
    (snapshotPath slug path).splitOn slash = units "vaults" :: slug :: path.splitOn slash := by
  rw [snapshotPath, List.splitOn_append_cons_self_of_not_mem (by decide),
    List.splitOn_append_cons_self_of_not_mem single]

/-- The segments of a valid path are not reserved. -/
theorem not_isInternalSegment_of_valid {path : JsString} {kind : VaultPathKind}
    (valid : validateVaultPath path kind = true) {segment : JsString}
    (member : segment ∈ path.splitOn slash) : isInternalSegment segment = false := by
  simp only [validateVaultPath, Bool.and_eq_true] at valid
  have checked := List.all_eq_true.mp valid.1.2 segment member
  simp only [validSegment, Bool.and_eq_true, Bool.not_eq_true'] at checked
  exact checked.2

/-- What is lowered to one of the two directories has a full stop. -/
theorem included_of_dot_not_mem {segment : JsString} (plain : dot ∉ segment) :
    IncludedSegment host segment := by
  have away : ∀ reserved : JsString, (∀ unit ∈ reserved, isAscii unit = true) → dot ∈ reserved →
      host.toLowerCase segment ≠ reserved := by
    rintro reserved ascii dotted rfl
    rw [host.toLowerCase_eq ascii] at dotted
    obtain ⟨unit, member, same⟩ := List.mem_map.mp dotted
    have own : unit = dot := by
      unfold lowerUnit at same
      split at same
      · rename_i letter
        rw [Bool.and_eq_true, decide_eq_true_eq, decide_eq_true_eq, UInt16.le_iff_toNat_le,
          UInt16.le_iff_toNat_le] at letter
        have lowered := congrArg UInt16.toNat same
        rw [UInt16.toNat_add] at lowered
        have least : 65 ≤ unit.toNat := letter.1
        have greatest : unit.toNat ≤ 90 := letter.2
        have moved : (32 : UInt16).toNat = 32 := rfl
        have mark : dot.toNat = 46 := rfl
        omega
      · split at same
        · cases same
        · exact same
    exact plain (own ▸ member)
  exact ⟨away _ (List.all_eq_true.mp (by decide)) (by decide),
    away _ (List.all_eq_true.mp (by decide)) (by decide)⟩

/-- **Every user file.** A file of a vault is in the snapshot if and only if no segment of its
path has the lower case of the Git or the metadata directory. -/
theorem snapshot_includes_iff (slugger : Slugger) {slug path : JsString} {kind : VaultPathKind}
    (wellFormed : slugger.isWellFormedSlug slug = true)
    (valid : validateVaultPath path kind = true) :
    (∀ ancestor ∈ Segments.ancestry slash (snapshotPath slug path),
        isPortableSnapshotPath host ancestor = true) ↔
      ∀ segment ∈ path.splitOn slash, IncludedSegment host segment := by
  have single : slash ∉ slug := fun member => by
    rw [← (slugger.isWellFormedSlug_iff.mp wellFormed).2] at member
    exact absurd (slugger.isSlugUnit_of_ascii slug slash member (by decide)) (by decide)
  have split := splitOn_snapshotPath single path
  have home : ∀ segment ∈ [units "vaults", slug], IncludedSegment host segment := by
    intro segment member
    rcases List.mem_cons.mp member with rfl | member
    · exact included_of_dot_not_mem host (by decide)
    · rw [List.mem_singleton.mp member]
      exact included_of_dot_not_mem host (slugger.dot_not_mem wellFormed)
  have foreign : kb1Segment ∉ (snapshotPath slug path).splitOn slash := by
    rw [split]
    intro member
    rcases List.mem_cons.mp member with same | member
    · exact absurd same (by decide)
    · rcases List.mem_cons.mp member with same | member
      · exact slugger.dot_not_mem wellFormed (same ▸ (by decide))
      · exact absurd (not_isInternalSegment_of_valid valid member) (by decide)
  constructor
  · intro portable segment member
    have whole : snapshotPath slug path ∈ Segments.ancestry slash (snapshotPath slug path) :=
      Segments.mem_ancestry.mpr
        ⟨_, List.splitOn_ne_nil _ _, List.prefix_rfl, Segments.joined_splitOn _⟩
    have included := (isPortableSnapshotPath_iff host foreign).mp (portable _ whole)
    rw [split] at included
    exact included segment (List.mem_cons_of_mem _ (List.mem_cons_of_mem _ member))
  · intro included ancestor above
    obtain ⟨front, some, within, rfl⟩ := Segments.mem_ancestry.mp above
    have own : (Segments.joined slash front).splitOn slash = front :=
      List.splitOn_intercalate slash
        (fun segment member => Segments.not_mem_of_mem_splitOn _ segment (within.subset member)) some
    rw [isPortableSnapshotPath_iff host (by rw [own]; exact fun member => foreign (within.subset member)),
      own]
    intro segment member
    have listed := within.subset member
    rw [split] at listed
    rcases List.mem_cons.mp listed with rfl | later
    · exact home _ List.mem_cons_self
    · rcases List.mem_cons.mp later with rfl | later
      · exact home _ (List.mem_cons_of_mem _ List.mem_cons_self)
      · exact included segment later

/-- A note in a folder of a vault. -/
theorem snapshot_includes_note :
    (∀ ancestor ∈ Segments.ancestry slash (snapshotPath (units "demo") (units "notes/a.md")),
        isPortableSnapshotPath HostText.plain ancestor = true) ↔
      ∀ segment ∈ (units "notes/a.md").splitOn slash, IncludedSegment HostText.plain segment :=
  @snapshot_includes_iff HostText.plain Slugger.plain (units "demo") (units "notes/a.md") .file
    (by decide +kernel) (by decide +kernel)

/-- A valid path that a snapshot leaves out: a folder's name is a spelling of the Git
directory's. -/
theorem snapshot_omits_case_variant :
    Slugger.plain.isWellFormedSlug (units "demo") = true ∧
      validateVaultPath (units ".GIT/notes.md") .file = true ∧
      isPortableSnapshotPath HostText.plain
        (snapshotPath (units "demo") (units ".GIT/notes.md")) = false :=
  ⟨by decide +kernel, by decide +kernel, by decide +kernel⟩

end Kb1Daemon
