import Mathlib.Algebra.Field.Rat
import Mathlib.Data.Rat.Defs

/-! # Numbers that need not be finite -/

/-- A number of the daemon; its two zeros are one. -/
inductive JsNumber where
  | finite (value : ℚ)
  | infinity
  | negativeInfinity
  | nan
  deriving DecidableEq, Repr

namespace JsNumber

/-- A natural number. -/
def ofNat (number : Nat) : JsNumber := .finite number

/-- `number > bound` for a natural number. -/
def isBelow (bound : JsNumber) (number : Nat) : Bool :=
  match bound with
  | .finite value => value < number
  | .infinity => false
  | .negativeInfinity => true
  | .nan => false

theorem ofNat_inj {first second : Nat} : ofNat first = ofNat second ↔ first = second := by
  rw [ofNat, ofNat, finite.injEq, Nat.cast_inj]

theorem isBelow_ofNat {bound number : Nat} : (ofNat bound).isBelow number = true ↔ bound < number := by
  rw [ofNat, isBelow, decide_eq_true_eq, Nat.cast_lt]

end JsNumber
