import Kb1Daemon.Foundation.JsString
import Mathlib.Algebra.Field.Rat
import Mathlib.Data.List.TakeWhile

/-! # Numbers as text

Natural numbers are written in decimal. Reading a text as a number gives its exact value;
what is written is read back (`JsString.numberValue_decimal`).
-/

namespace JsString

open Kb1Daemon (units)

def isDigit (unit : CodeUnit) : Bool := 48 ≤ unit && unit ≤ 57

/-- The digit of a value below ten. -/
def decimalDigit (value : Nat) : CodeUnit := UInt16.ofNat (48 + value)

/-- Write the digits of a number in front of a text; the fuel bounds their number. -/
def decimalLoop : Nat → Nat → JsString → JsString
  | 0, _, text => text
  | fuel + 1, number, text =>
      if number / 10 = 0 then decimalDigit (number % 10) :: text
      else decimalLoop fuel (number / 10) (decimalDigit (number % 10) :: text)

/-- A number in decimal. -/
def decimal (number : Nat) : JsString := decimalLoop (number + 1) number []

/-- The value of digits in a base, after a number. -/
def digitsValue (base : Nat) (digitValue : CodeUnit → Nat) (before : Nat) (digits : JsString) :
    Nat :=
  digits.foldl (fun value digit => base * value + digitValue digit) before

/-- The value of a decimal digit. -/
def digitValue (digit : CodeUnit) : Nat := digit.toNat - 48

/-- The value of a letter or digit as a digit of a base up to sixteen. -/
def radixValue (digit : CodeUnit) : Nat :=
  if isDigit digit then digit.toNat - 48
  else if 97 ≤ digit && digit ≤ 102 then digit.toNat - 87
  else if 65 ≤ digit && digit ≤ 70 then digit.toNat - 55
  else 16

/-- The exponent that ends a decimal literal. -/
def exponentValue (text : JsString) : Option Int :=
  match text with
  | [] => some 0
  | mark :: rest =>
      let sign := rest.head?.filter (· ∈ ([43, 45] : List CodeUnit))
      let digits := if sign.isSome then rest.drop 1 else rest
      if (mark = 69 ∨ mark = 101) ∧ digits ≠ [] ∧ digits.all isDigit = true then
        some (if sign = some 45 then -(digitsValue 10 digitValue 0 digits : Int)
          else digitsValue 10 digitValue 0 digits)
      else none

/-- A decimal literal without a sign. -/
def decimalValue (text : JsString) : Option ℚ :=
  let whole := text.takeWhile isDigit
  let rest := text.dropWhile isDigit
  let pointed := rest.head? = some 46
  let fraction := if pointed then (rest.drop 1).takeWhile isDigit else []
  let after := if pointed then (rest.drop 1).dropWhile isDigit else rest
  if (whole ++ fraction).isEmpty then none
  else
    (exponentValue after).map fun exponent : ℤ =>
      (digitsValue 10 digitValue 0 (whole ++ fraction) : ℚ) *
        (10 : ℚ) ^ (exponent - (fraction.length : ℤ))

/-- The base of a literal that begins with a zero and a letter. -/
def radix (text : JsString) : Option Nat :=
  if text.take 2 = units "0x" ∨ text.take 2 = units "0X" then some 16
  else if text.take 2 = units "0o" ∨ text.take 2 = units "0O" then some 8
  else if text.take 2 = units "0b" ∨ text.take 2 = units "0B" then some 2
  else none

/-- `Number` of a text, where it is finite. The value is exact: it is not rounded to a
floating-point number. -/
def numberValue (value : JsString) : Option ℚ :=
  let text := trim value
  if text.isEmpty then some 0
  else
    match radix text with
    | some base =>
        let digits := text.drop 2
        if digits ≠ [] ∧ digits.all (fun digit => radixValue digit < base) = true then
          some (digitsValue base radixValue 0 digits)
        else none
    | none =>
        if text.head? = some 45 then (decimalValue (text.drop 1)).map Neg.neg
        else if text.head? = some 43 then decimalValue (text.drop 1)
        else decimalValue text

theorem isDigit_decimalDigit {value : Nat} (small : value < 10) :
    isDigit (decimalDigit value) = true := by
  revert value
  decide

theorem digitValue_decimalDigit {value : Nat} (small : value < 10) :
    digitValue (decimalDigit value) = value := by
  revert value
  decide

theorem digitsValue_decimalLoop {fuel number : Nat} (fueled : number < fuel) (text : JsString) :
    digitsValue 10 digitValue 0 (decimalLoop fuel number text) =
      digitsValue 10 digitValue number text := by
  induction fuel generalizing number text with
  | zero => exact absurd fueled (Nat.not_lt_zero _)
  | succ fuel ih =>
      have digit := digitValue_decimalDigit (Nat.mod_lt number (by decide : 0 < 10))
      unfold decimalLoop
      split
      · rename_i last
        change digitsValue 10 digitValue (10 * 0 + digitValue _) text = _
        rw [digit]
        congr 1
        omega
      · rw [ih (by omega)]
        change digitsValue 10 digitValue (10 * (number / 10) + digitValue _) text = _
        rw [digit, Nat.div_add_mod]

/-- The loop writes digits. -/
theorem isDigit_decimalLoop {fuel number : Nat} {text : JsString}
    (digits : text.all isDigit = true) : (decimalLoop fuel number text).all isDigit = true := by
  induction fuel generalizing number text with
  | zero => exact digits
  | succ fuel ih =>
      have more : (decimalDigit (number % 10) :: text).all isDigit = true := by
        rw [List.all_cons, isDigit_decimalDigit (Nat.mod_lt number (by decide)), digits]
        rfl
      unfold decimalLoop
      split
      · exact more
      · exact ih more

theorem isDigit_decimal (number : Nat) : (decimal number).all isDigit = true :=
  isDigit_decimalLoop rfl

/-- The loop writes something. -/
theorem decimalLoop_ne_nil {fuel number : Nat} {text : JsString} (some : text ≠ []) :
    decimalLoop fuel number text ≠ [] := by
  induction fuel generalizing number text with
  | zero => exact some
  | succ fuel ih =>
      unfold decimalLoop
      split
      · exact nofun
      · exact ih nofun

/-- A decimal number is not empty. -/
theorem decimal_ne_nil (number : Nat) : decimal number ≠ [] := by
  unfold decimal decimalLoop
  split
  · exact nofun
  · exact decimalLoop_ne_nil nofun

theorem length_le_decimalLoop (fuel number : Nat) (text : JsString) :
    text.length ≤ (decimalLoop fuel number text).length := by
  induction fuel generalizing number text with
  | zero => exact Nat.le_refl _
  | succ fuel ih =>
      unfold decimalLoop
      split
      · exact Nat.le_succ _
      · exact Nat.le_of_succ_le (ih _ (decimalDigit (number % 10) :: text))

/-- A greater number has no fewer digits. -/
theorem length_decimalLoop_le {fuel other number greater : Nat} {text more : JsString}
    (same : text.length = more.length) (enough : greater < other) (order : number ≤ greater) :
    (decimalLoop fuel number text).length ≤ (decimalLoop other greater more).length := by
  induction fuel generalizing other number greater text more with
  | zero =>
      rw [decimalLoop, same]
      exact length_le_decimalLoop _ _ _
  | succ fuel ih =>
      obtain ⟨other, rfl⟩ := Nat.exists_eq_succ_of_ne_zero (Nat.ne_of_gt (Nat.zero_lt_of_lt enough))
      rw [decimalLoop, decimalLoop]
      have longer : (decimalDigit (number % 10) :: text).length =
          (decimalDigit (greater % 10) :: more).length := congrArg Nat.succ same
      by_cases last : number / 10 = 0
      · rw [if_pos last, longer]
        split
        · exact Nat.le_refl _
        · exact length_le_decimalLoop _ _ _
      · rw [if_neg last, if_neg (by omega)]
        exact ih longer (by omega) (by omega)

theorem length_decimal_le {number greater : Nat} (order : number ≤ greater) :
    (decimal number).length ≤ (decimal greater).length :=
  length_decimalLoop_le rfl (Nat.lt_succ_self _) order

/-- A digit is no white space, sign, point or letter. -/
theorem not_isWhitespace_of_isDigit {unit : CodeUnit} (digit : isDigit unit = true) :
    isWhitespace unit = false := by
  have bounds := Bool.and_eq_true_iff.mp digit
  have least := UInt16.le_iff_toNat_le.mp (of_decide_eq_true bounds.1)
  have greatest := UInt16.le_iff_toNat_le.mp (of_decide_eq_true bounds.2)
  have least : 48 ≤ unit.toNat := least
  have greatest : unit.toNat ≤ 57 := greatest
  have small : ∀ value < 58, 48 ≤ value → isWhitespace (UInt16.ofNat value) = false := by decide
  rw [← @UInt16.ofNat_toNat unit]
  exact small _ (Nat.lt_succ_of_le greatest) least

/-- A text without white space at its ends is trimmed. -/
theorem trim_eq_self {text : JsString} (first : ∀ unit ∈ text.head?, isWhitespace unit = false)
    (last : ∀ unit ∈ text.getLast?, isWhitespace unit = false) : trim text = text := by
  have kept : ∀ text : JsString, (∀ unit ∈ text.head?, isWhitespace unit = false) →
      text.dropWhile isWhitespace = text := by
    intro text plain
    cases text with
    | nil => rfl
    | cons unit text => rw [List.dropWhile_cons_of_neg (by simpa using plain unit rfl)]
  unfold trim
  rw [kept text first, kept text.reverse (by rw [List.head?_reverse]; exact last),
    List.reverse_reverse]

/-- Digits are read as the number they write. -/
theorem decimalValue_digits {text : JsString} (digits : text.all isDigit = true)
    (some : text ≠ []) : decimalValue text = .some (digitsValue 10 digitValue 0 text : ℚ) := by
  have all := List.all_eq_true.mp digits
  unfold decimalValue
  rw [List.takeWhile_eq_self_iff.mpr all, List.dropWhile_eq_nil_iff.mpr all]
  simp [some, exponentValue]

/-- **A number in decimal is read back.** -/
theorem numberValue_decimal (number : Nat) :
    numberValue (decimal number) = some (number : ℚ) := by
  have digits := isDigit_decimal number
  have all := List.all_eq_true.mp digits
  have some := decimal_ne_nil number
  have trimmed : trim (decimal number) = decimal number :=
    trim_eq_self (fun unit first => not_isWhitespace_of_isDigit (all unit (List.mem_of_head? first)))
      (fun unit last => not_isWhitespace_of_isDigit (all unit (List.mem_of_getLast? last)))
  have plain : ∀ mark : CodeUnit, isDigit mark = false → (decimal number).head? ≠ .some mark := by
    intro mark other first
    rw [all mark (List.mem_of_head? first)] at other
    cases other
  have base : radix (decimal number) = none := by
    have apart : ∀ letter : CodeUnit, isDigit letter = false →
        (decimal number).take 2 ≠ [48, letter] := by
      intro letter other same
      have member : letter ∈ (decimal number).take 2 := by
        rw [same]
        exact List.mem_cons_of_mem _ List.mem_cons_self
      rw [all letter (List.mem_of_mem_take member)] at other
      cases other
    unfold radix
    rw [if_neg, if_neg, if_neg]
    all_goals
      rintro (lower | upper)
      · exact apart _ (by decide) lower
      · exact apart _ (by decide) upper
  have value : digitsValue 10 digitValue 0 (decimal number) = number :=
    digitsValue_decimalLoop (Nat.lt_succ_self number) []
  unfold numberValue
  rw [trimmed]
  dsimp only
  rw [base, if_neg (by simpa using some), if_neg (plain 45 (by decide)), if_neg (plain 43 (by decide)),
    decimalValue_digits digits some, value]

example : numberValue (units " -1.5e2 ") = some (-150) := by decide +kernel

theorem decimal_injective {left right : Nat} (same : decimal left = decimal right) :
    left = right := by
  have value := congrArg numberValue same
  rw [numberValue_decimal, numberValue_decimal] at value
  exact_mod_cast Option.some.inj value

end JsString
