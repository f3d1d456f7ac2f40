import Kb1Daemon.Foundation.JsString
import Mathlib.Tactic.Common

/-! # Letter case and the composed normal form

`toLowerCase` and `normalize('NFC')` read the host's Unicode tables. They enter through what
these tables say of ASCII: three units outside ASCII are canonically equivalent to a unit of
ASCII, one of them, the Kelvin sign, has its lower case in ASCII, and nothing else is lowered
or composed to a string of ASCII. A concrete pair for the runs of this development is
`HostText.plain`.
-/

namespace JsString

def isAscii (unit : CodeUnit) : Bool := unit < 128

/-- The Kelvin sign, whose lower case is the letter `k`. -/
def kelvinSign : CodeUnit := 0x212A

/-- The ASCII units and the units that are canonically equivalent to one: the Greek question
mark, the Greek varia and the Kelvin sign. -/
def isPlain (unit : CodeUnit) : Bool := isAscii unit || unit ∈ [0x037E, 0x1FEF, kelvinSign]

/-- The lower case of a plain unit. -/
def lowerUnit (unit : CodeUnit) : CodeUnit :=
  if 65 ≤ unit && unit ≤ 90 then unit + 32 else if unit = kelvinSign then 107 else unit

/-- The ASCII unit a plain unit is equivalent to. -/
def composedUnit (unit : CodeUnit) : CodeUnit :=
  if unit = 0x037E then 59 else if unit = 0x1FEF then 96 else if unit = kelvinSign then 75 else unit

theorem isPlain_of_isAscii {unit : CodeUnit} (ascii : isAscii unit = true) :
    isPlain unit = true := by
  rw [isPlain, ascii, Bool.true_or]

theorem composedUnit_of_isAscii {unit : CodeUnit} (ascii : isAscii unit = true) :
    composedUnit unit = unit := by
  have small : unit < 128 := of_decide_eq_true ascii
  unfold composedUnit
  rw [if_neg, if_neg, if_neg]
  all_goals
    rintro rfl
    exact absurd small (by decide)

theorem isAscii_lowerUnit {unit : CodeUnit} (ascii : isAscii unit = true) :
    isAscii (lowerUnit unit) = true := by
  have small : unit < 128 := of_decide_eq_true ascii
  unfold lowerUnit
  split
  · rename_i letter
    rw [Bool.and_eq_true, decide_eq_true_eq, decide_eq_true_eq] at letter
    refine decide_eq_true ?_
    have upper := letter.2
    rw [UInt16.le_iff_toNat_le] at upper
    rw [UInt16.lt_iff_toNat_lt, UInt16.toNat_add]
    have bounded : (90 : UInt16).toNat = 90 := rfl
    have moved : (32 : UInt16).toNat = 32 := rfl
    have limit : (128 : UInt16).toNat = 128 := rfl
    omega
  · split
    · rfl
    · exact ascii

theorem ascii_or_kelvinSign_of_lowerUnit {unit : CodeUnit} (ascii : isAscii (lowerUnit unit) = true) :
    isAscii unit = true ∨ unit = kelvinSign := by
  unfold lowerUnit at ascii
  split at ascii
  · rename_i letter
    rw [Bool.and_eq_true, decide_eq_true_eq, decide_eq_true_eq] at letter
    exact .inl (decide_eq_true (UInt16.lt_of_le_of_lt letter.2 (by decide)))
  · split at ascii
    · exact .inr ‹_›
    · exact .inl ascii

end JsString

namespace Kb1Daemon

open JsString

/-- The host's `toLowerCase` and `normalize('NFC')`. -/
structure HostText where
  toLowerCase : JsString → JsString
  normalizeNFC : JsString → JsString
  toLowerCase_plain : ∀ text, (∀ unit ∈ text, isPlain unit = true) →
    toLowerCase text = text.map lowerUnit
  ascii_of_toLowerCase : ∀ text, (∀ unit ∈ toLowerCase text, isAscii unit = true) →
    ∀ unit ∈ text, isAscii unit = true ∨ unit = kelvinSign
  normalizeNFC_ascii : ∀ text, (∀ unit ∈ text, isAscii unit = true) → normalizeNFC text = text
  plain_of_normalizeNFC : ∀ text, (∀ unit ∈ normalizeNFC text, isAscii unit = true) →
    (∀ unit ∈ text, isPlain unit = true) ∧ normalizeNFC text = text.map composedUnit
  kelvinSign_not_mem : ∀ text, kelvinSign ∉ normalizeNFC text

namespace HostText

/-- The tables' part on plain units; every other unit is kept. -/
def plain : HostText where
  toLowerCase text := text.map lowerUnit
  normalizeNFC text := text.map composedUnit
  toLowerCase_plain _ _ := rfl
  ascii_of_toLowerCase text ascii unit member :=
    ascii_or_kelvinSign_of_lowerUnit (ascii _ (List.mem_map_of_mem member))
  normalizeNFC_ascii text ascii :=
    (List.map_congr_left fun unit member => composedUnit_of_isAscii (ascii unit member)).trans
      (List.map_id text)
  plain_of_normalizeNFC text ascii := by
    refine ⟨fun unit member => ?_, rfl⟩
    have composed := ascii _ (List.mem_map_of_mem member)
    unfold composedUnit at composed
    split at composed
    · rename_i same
      rw [same]
      decide
    · split at composed
      · rename_i same
        rw [same]
        decide
      · split at composed
        · rename_i same
          rw [same]
          decide
        · exact isPlain_of_isAscii composed
  kelvinSign_not_mem text member := by
    obtain ⟨unit, _, same⟩ := List.mem_map.mp member
    unfold composedUnit at same
    split at same
    · exact absurd same (by decide)
    · split at same
      · exact absurd same (by decide)
      · split at same
        · exact absurd same (by decide)
        · contradiction

variable (host : HostText)

theorem toLowerCase_ascii {text : JsString} (ascii : ∀ unit ∈ text, isAscii unit = true) :
    host.toLowerCase text = text.map lowerUnit :=
  host.toLowerCase_plain text fun unit member => isPlain_of_isAscii (ascii unit member)

/-- A string whose lower case is ASCII is lowered unit by unit. -/
theorem toLowerCase_eq {text : JsString}
    (ascii : ∀ unit ∈ host.toLowerCase text, isAscii unit = true) :
    host.toLowerCase text = text.map lowerUnit := by
  refine host.toLowerCase_plain text fun unit member => ?_
  rcases host.ascii_of_toLowerCase text ascii unit member with small | rfl
  · exact isPlain_of_isAscii small
  · decide

end HostText

end Kb1Daemon
