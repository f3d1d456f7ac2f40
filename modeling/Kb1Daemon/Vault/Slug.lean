import Kb1Daemon.Foundation.HostText
import Kb1Daemon.Vault.Path

/-! # Vault slugs

Slugs are made by a package that lower-cases a text, turns its spaces into hyphens and removes
its punctuation. What is left of ASCII are letters, digits, hyphens and underscores; nothing may
be left at all.
-/

namespace Kb1Daemon

open JsString

/-- The ASCII units of a slug: lower-case letters, digits, the hyphen and the underscore. -/
def isSlugUnit (unit : CodeUnit) : Bool :=
  (97 ≤ unit && unit ≤ 122) || (48 ≤ unit && unit ≤ 57) || unit = 45 || unit = 95

theorem not_isWhitespace_of_isSlugUnit {unit : CodeUnit} (slugUnit : isSlugUnit unit = true) :
    isWhitespace unit = false := by
  have small : ∀ value < 128, isSlugUnit (UInt16.ofNat value) = true →
      isWhitespace (UInt16.ofNat value) = false := by decide
  have low : unit.toNat < 128 := by
    simp only [isSlugUnit, Bool.or_eq_true, Bool.and_eq_true, decide_eq_true_eq,
      UInt16.le_iff_toNat_le] at slugUnit
    rcases slugUnit with ((⟨_, letter⟩ | ⟨_, digit⟩) | rfl) | rfl
    · exact Nat.lt_of_le_of_lt letter (by decide)
    · exact Nat.lt_of_le_of_lt digit (by decide)
    · decide
    · decide
  rw [← @UInt16.ofNat_toNat unit] at slugUnit ⊢
  exact small _ low slugUnit

/-- `slug` of the package. -/
structure Slugger where
  githubSlug : JsString → JsString
  isSlugUnit_of_ascii : ∀ value, ∀ unit ∈ githubSlug value, isAscii unit = true →
    isSlugUnit unit = true
  not_isWhitespace : ∀ value, ∀ unit ∈ githubSlug value, isWhitespace unit = false

namespace Slugger

variable (slugger : Slugger)

def slugify (value : JsString) : JsString := slugger.githubSlug value

/-- The slug is not empty and stays as it is when it is slugged again. -/
def isWellFormedSlug (slug : JsString) : Bool := !slug.isEmpty && slugger.slugify slug = slug

/-- The package on ASCII; what is not ASCII is removed. -/
def plain : Slugger where
  githubSlug value :=
    ((value.map lowerUnit).filter fun unit => unit = 32 || isSlugUnit unit).map fun unit =>
      if unit = 32 then 45 else unit
  isSlugUnit_of_ascii value unit member _ := by
    obtain ⟨kept, filtered, rfl⟩ := List.mem_map.mp member
    have allowed := List.of_mem_filter filtered
    split
    · decide
    · rename_i other
      simpa [other] using allowed
  not_isWhitespace value unit member := by
    obtain ⟨kept, filtered, rfl⟩ := List.mem_map.mp member
    have allowed := List.of_mem_filter filtered
    split
    · decide
    · rename_i other
      exact not_isWhitespace_of_isSlugUnit (by simpa [other] using allowed)

theorem isWellFormedSlug_iff {slug : JsString} :
    slugger.isWellFormedSlug slug = true ↔ slug ≠ [] ∧ slugger.slugify slug = slug := by
  simp [isWellFormedSlug]

/-- A slug has no full stop. -/
theorem dot_not_mem {slug : JsString} (wellFormed : slugger.isWellFormedSlug slug = true) :
    dot ∉ slug := by
  intro member
  rw [← (slugger.isWellFormedSlug_iff.mp wellFormed).2] at member
  exact absurd (slugger.isSlugUnit_of_ascii slug dot member (by decide)) (by decide)

end Slugger

end Kb1Daemon
