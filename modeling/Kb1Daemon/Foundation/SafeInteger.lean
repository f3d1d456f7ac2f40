import Kb1Daemon.Foundation.Numeral
import Mathlib.Data.Int.Log
import Mathlib.Data.Rat.Floor

/-! # Integers among the numbers of a text

A literal stands for the double that is nearest to it. It counts as a natural number when that
double is an integer, not below zero, of which every smaller one is exact.
-/

namespace JsString

open Kb1Daemon (units)

/-- The nearest integer; of two that are as near, the even one. -/
def roundEven (value : ℚ) : ℤ :=
  if value - ⌊value⌋ < 1 / 2 then ⌊value⌋
  else if 1 / 2 < value - ⌊value⌋ then ⌊value⌋ + 1
  else if ⌊value⌋ % 2 = 0 then ⌊value⌋
  else ⌊value⌋ + 1

/-- The distance of the doubles around a value that is not below zero. -/
def doubleUnit (value : ℚ) : ℚ := 2 ^ max (Int.log 2 value - 52) (-1074)

/-- The nearest double to a value that is not below zero, however large. -/
def roundDouble (value : ℚ) : ℚ := roundEven (value / doubleUnit value) * doubleUnit value

/-- `Number.MAX_SAFE_INTEGER`. -/
def maxSafeInteger : Nat := 9007199254740991

/-- The value of a literal that is a safe integer not below zero. -/
def safeNatural (text : JsString) : Option Nat :=
  let negative := text.head? = some 45
  (decimalValue (if negative then text.drop 1 else text)).bind fun value =>
    if (roundDouble value).den = 1 ∧ roundDouble value ≤ maxSafeInteger ∧
        (negative → roundDouble value = 0) then
      some (roundDouble value).num.toNat
    else none

end JsString
