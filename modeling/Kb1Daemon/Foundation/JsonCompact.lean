import Kb1Daemon.Foundation.Utf8

/-! # Compact JSON text

`JSON.stringify` without blanks. The bytes of a text are counted part by part
(`Utf8.byteLength_append`); a text of visible ASCII units stands in a written string as it is and
takes one byte for each unit (`Json.escape_of_visible`, `Utf8.byteLength_of_visible`).
-/

namespace Json

open Kb1Daemon (units)

mutual

/-- `JSON.stringify`. A number is the text it is written as; the negative zero is written without
its sign. -/
def stringify : Json → JsString
  | .null => units "null"
  | .bool value => if value then units "true" else units "false"
  | .number text => if text = units "-0" then units "0" else text
  | .string value => stringifyString value
  | .array [] => units "[]"
  | .array (item :: items) => 91 :: stringify item ++ stringifyItems items ++ [93]
  | .object [] => units "\x7b\x7d"
  | .object (entry :: entries) => 123 :: stringifyEntry entry ++ stringifyEntries entries ++ [125]

/-- The items of an array after the first one. -/
def stringifyItems : List Json → JsString
  | [] => []
  | item :: items => 44 :: stringify item ++ stringifyItems items

def stringifyEntry : JsString × Json → JsString
  | (key, value) => stringifyString key ++ 58 :: stringify value

/-- The members of a record after the first one. -/
def stringifyEntries : List (JsString × Json) → JsString
  | [] => []
  | entry :: entries => 44 :: stringifyEntry entry ++ stringifyEntries entries

end

theorem stringifyEntries_append (front back : List (JsString × Json)) :
    stringifyEntries (front ++ back) = stringifyEntries front ++ stringifyEntries back := by
  induction front with
  | nil => rfl
  | cons entry front ih =>
      rw [List.cons_append, stringifyEntries, stringifyEntries, ih, List.append_assoc]

/-- A record whose last member is a string. -/
theorem stringify_object_concat (entry : JsString × Json) (entries : List (JsString × Json))
    (key value : JsString) :
    stringify (.object (entry :: (entries ++ [(key, .string value)]))) =
      123 :: (stringifyEntry entry ++ (stringifyEntries entries ++
        44 :: (stringifyString key ++ [58, quote]))) ++ (escape false value ++ [quote, 125]) := by
  simp only [stringify, stringifyEntries_append, stringifyEntries, stringifyEntry, stringifyString,
    List.append_assoc, List.cons_append, List.nil_append, List.append_nil]

/-- A printed ASCII unit that is written as it is. -/
def Visible (unit : CodeUnit) : Prop :=
  32 ≤ unit.toNat ∧ unit.toNat < 127 ∧ unit ≠ quote ∧ unit ≠ reverseSolidus

instance (unit : CodeUnit) : Decidable (Visible unit) := inferInstanceAs (Decidable (_ ∧ _))

/-- A visible unit is no half of a pair. -/
theorem Visible.not_surrogate {unit : CodeUnit} (visible : Visible unit) :
    isHighSurrogate unit = false ∧ isLowSurrogate unit = false := by
  obtain ⟨_, small, _⟩ := visible
  rw [Bool.eq_false_iff, Bool.eq_false_iff, ne_eq, ne_eq, Utf8.isHighSurrogate_iff,
    Utf8.isLowSurrogate_iff]
  omega

theorem escapeUnit_of_visible {unit : CodeUnit} (visible : Visible unit) :
    escapeUnit unit = [unit] := by
  obtain ⟨printed, _, quoted, solidus⟩ := visible
  have other : ∀ control : CodeUnit, control.toNat < 32 → unit ≠ control := by
    rintro control small rfl
    omega
  have large : ¬ unit < 32 := by
    rw [UInt16.lt_iff_toNat_lt]
    exact Nat.not_lt.mpr printed
  unfold escapeUnit
  rw [if_neg (show unit ≠ 34 from quoted), if_neg (show unit ≠ 92 from solidus), if_neg (other _ (by decide)), if_neg (other _ (by decide)),
    if_neg (other _ (by decide)), if_neg (other _ (by decide)), if_neg (other _ (by decide)),
    if_neg large]

/-- A visible text is written as it is. -/
theorem escape_of_visible {text : JsString} (visible : ∀ unit ∈ text, Visible unit)
    (paired : Bool) : escape paired text = text := by
  induction text generalizing paired with
  | nil => rfl
  | cons unit text ih =>
      have own := visible unit List.mem_cons_self
      obtain ⟨high, low⟩ := own.not_surrogate
      unfold escape
      dsimp only
      rw [high, low, Bool.false_and, Bool.and_false, Bool.or_false, if_neg Bool.false_ne_true,
        if_neg Bool.false_ne_true, escapeUnit_of_visible own,
        ih (fun other listed => visible other (List.mem_cons_of_mem _ listed)),
        List.singleton_append]

end Json

namespace Utf8

open Json

/-- A visible text before another takes one byte for each unit. -/
theorem byteLength_visible_append {text : JsString} (visible : ∀ unit ∈ text, Visible unit)
    (rest : JsString) : byteLength (text ++ rest) = text.length + byteLength rest := by
  induction text with
  | nil => rw [List.nil_append, List.length_nil, Nat.zero_add]
  | cons unit text ih =>
      have own := visible unit List.mem_cons_self
      obtain ⟨high, low⟩ := own.not_surrogate
      have one : byteLength [unit] = 1 := by
        rw [byteLength, encode, unitValue, isSurrogate, high, low, Bool.or_false,
          if_neg Bool.false_ne_true, bytes, if_pos (Nat.lt_of_lt_of_le own.2.1 (by decide))]
        rfl
      have apart : [unit].getLast?.any isHighSurrogate = true →
          (text ++ rest).head?.any isLowSurrogate = false := by
        intro surrogate
        exact absurd (high.symm.trans surrogate) Bool.false_ne_true
      rw [List.cons_append, ← List.singleton_append, byteLength_append apart, one,
        ih fun other listed => visible other (List.mem_cons_of_mem _ listed), List.length_cons]
      omega

end Utf8
