import Mathlib.Algebra.Order.BigOperators.Group.List
import Mathlib.Algebra.Order.Group.Nat
import Kb1Daemon.Foundation.Utf8

/-! # Percent-encoding

A text without lone surrogates is encoded code point by code point: those that are not kept are
written as the escapes of their bytes. Decoding gives the text again, whatever is kept besides the
percent sign (`Uri.decodeURIComponent_escaped`).
-/

namespace Uri

open Json (isHighSurrogate isLowSurrogate hexValue)
open Utf8 (isSurrogate pairValue codePointUnits bytes IsScalar)
open Kb1Daemon (units)

/-- The percent sign. -/
def percent : CodeUnit := 37

/-- The digit of an escape. -/
def escapeDigit (value : Nat) : CodeUnit :=
  if value < 10 then UInt16.ofNat (48 + value) else UInt16.ofNat (55 + value)

def escapeByte (byte : UInt8) : JsString :=
  [percent, escapeDigit (byte.toNat / 16), escapeDigit (byte.toNat % 16)]

/-- The code points of a text without lone surrogates. -/
def codePoints : JsString → Option (List Nat)
  | [] => some []
  | [unit] => if isSurrogate unit then none else some [unit.toNat]
  | unit :: next :: rest =>
      if isHighSurrogate unit && isLowSurrogate next then
        (codePoints rest).map (pairValue unit next :: ·)
      else if isSurrogate unit then none
      else (codePoints (next :: rest)).map (unit.toNat :: ·)

/-- A code point as it stands in an encoded text. -/
def escaped (kept : Nat → Bool) (value : Nat) : JsString :=
  if kept value then codePointUnits value else (bytes value).flatMap escapeByte

def encode (kept : Nat → Bool) (text : JsString) : Option JsString :=
  (codePoints text).map fun values => values.flatMap (escaped kept)

/-- The letters, digits and marks that are never escaped. -/
def isUnreserved (value : Nat) : Bool :=
  (97 ≤ value && value ≤ 122) || (65 ≤ value && value ≤ 90) || (48 ≤ value && value ≤ 57) ||
    UInt16.ofNat value ∈ units "-_.!~*'()" && value < 128

/-- `encodeURIComponent`, which throws on a lone surrogate. -/
def encodeURIComponent (text : JsString) : Option JsString := encode isUnreserved text

/-- The byte of an escape, and the rest of the text. -/
def escapedByte : JsString → Option (UInt8 × JsString)
  | mark :: first :: second :: rest =>
      if mark = percent then do
        let high ← hexValue first
        let low ← hexValue second
        return (UInt8.ofNat (high * 16 + low), rest)
      else none
  | _ => none

/-- The bytes of as many escapes, and the rest of the text. -/
def escapedBytes : Nat → JsString → Option (List UInt8 × JsString)
  | 0, text => some ([], text)
  | count + 1, text => do
      let first ← escapedByte text
      let more ← escapedBytes count first.2
      return (first.1 :: more.1, more.2)

/-- The number of bytes of a code point, by the first one. -/
def byteCount (lead : Nat) : Nat :=
  if lead < 0x80 then 1
  else if lead < 0xC0 then 0
  else if lead < 0xE0 then 2
  else if lead < 0xF0 then 3
  else if lead < 0xF8 then 4
  else 0

/-- What the first byte of a code point says of it. -/
def leadValue (lead : Nat) : Nat :=
  if lead < 0x80 then lead
  else if lead < 0xE0 then lead - 0xC0
  else if lead < 0xF0 then lead - 0xE0
  else lead - 0xF0

def octetsValue : List UInt8 → Nat
  | [] => 0
  | lead :: more => more.foldl (fun value byte => value * 64 + (byte.toNat - 0x80))
      (leadValue lead.toNat)

instance (value : Nat) : Decidable (IsScalar value) := inferInstanceAs (Decidable (_ ∧ ¬(_ ∧ _)))

/-- The code point of bytes that are its encoding. -/
def scalarOf (octets : List UInt8) : Option Nat :=
  if IsScalar (octetsValue octets) ∧ bytes (octetsValue octets) = octets then
    some (octetsValue octets)
  else none

/-- Decode a text, which throws on an escape that is not one. The fuel bounds its length. -/
def decodeLoop : Nat → JsString → Option JsString
  | _, [] => some []
  | 0, _ :: _ => none
  | fuel + 1, unit :: rest =>
      if unit ≠ percent then (decodeLoop fuel rest).map (unit :: ·)
      else do
        let lead ← escapedByte (unit :: rest)
        if byteCount lead.1.toNat = 0 then none
        else
          let octets ← escapedBytes (byteCount lead.1.toNat) (unit :: rest)
          let value ← scalarOf octets.1
          let more ← decodeLoop fuel octets.2
          return codePointUnits value ++ more

def decodeURIComponent (text : JsString) : Option JsString := decodeLoop text.length text

section CodePoints

variable {text : JsString} {values : List Nat}

/-- A unit that is no surrogate is a code point. -/
theorem scalar_of_plain {unit : CodeUnit} (plain : isSurrogate unit = false) :
    IsScalar unit.toNat ∧ codePointUnits unit.toNat = [unit] := by
  have same := Utf8.unit_of_not_surrogate plain
  rwa [Utf8.unitValue, plain, if_neg Bool.false_ne_true] at same

/-- The code points of a text are no surrogates, and their units are the text. -/
theorem codePoints_spec (known : codePoints text = some values) :
    values.flatMap codePointUnits = text ∧ ∀ value ∈ values, IsScalar value := by
  induction text using Utf8.encode.induct generalizing values with
  | case1 =>
      cases known
      exact ⟨rfl, fun _ listed => absurd listed List.not_mem_nil⟩
  | case2 unit =>
      rw [codePoints] at known
      split_ifs at known with surrogate
      cases known
      rw [Bool.not_eq_true] at surrogate
      obtain ⟨scalar, same⟩ := scalar_of_plain surrogate
      rw [List.flatMap_singleton]
      exact ⟨same, List.forall_mem_singleton.mpr scalar⟩
  | case3 unit following rest paired ih =>
      rw [codePoints, if_pos paired] at known
      obtain ⟨others, found, rfl⟩ := Option.map_eq_some_iff.mp known
      obtain ⟨text, scalars⟩ := ih found
      obtain ⟨isHigh, isLow⟩ := Bool.and_eq_true_iff.mp paired
      obtain ⟨scalar, same⟩ := Utf8.pair_of_surrogates isHigh isLow
      rw [List.flatMap_cons, text, same]
      exact ⟨rfl, List.forall_mem_cons.mpr ⟨scalar, scalars⟩⟩
  | case4 unit following rest unpaired ih =>
      rw [codePoints, if_neg unpaired] at known
      split_ifs at known with surrogate
      rw [Bool.not_eq_true] at surrogate
      obtain ⟨others, found, rfl⟩ := Option.map_eq_some_iff.mp known
      obtain ⟨text, scalars⟩ := ih found
      obtain ⟨scalar, same⟩ := scalar_of_plain surrogate
      rw [List.flatMap_cons, text, same]
      exact ⟨rfl, List.forall_mem_cons.mpr ⟨scalar, scalars⟩⟩

theorem codePoints_cons {unit : CodeUnit} (plain : isSurrogate unit = false) (rest : JsString) :
    codePoints (unit :: rest) = (codePoints rest).map (unit.toNat :: ·) := by
  cases rest with
  | nil =>
      rw [codePoints.eq_2, plain, if_neg Bool.false_ne_true]
      rfl
  | cons following rest =>
      have high : isHighSurrogate unit = false := (Bool.or_eq_false_iff.mp plain).1
      rw [codePoints.eq_3, high, Bool.false_and, if_neg Bool.false_ne_true, plain,
        if_neg Bool.false_ne_true]

/-- A unit that is no surrogate does not join what is around it. -/
theorem codePoints_append_cons {unit : CodeUnit} (plain : isSurrogate unit = false)
    (front rest : JsString) :
    codePoints (front ++ unit :: rest) =
      (codePoints front).bind fun first => (codePoints rest).map fun last =>
        first ++ unit.toNat :: last := by
  have low : isLowSurrogate unit = false := (Bool.or_eq_false_iff.mp plain).2
  induction front using Utf8.encode.induct with
  | case1 =>
      rw [List.nil_append, codePoints_cons plain]
      rfl
  | case2 before =>
      rw [List.cons_append, List.nil_append, codePoints.eq_3, low, Bool.and_false,
        if_neg Bool.false_ne_true, codePoints.eq_2]
      split_ifs
      · rfl
      · rw [codePoints_cons plain, Option.map_map]
        rfl
  | case3 before following others paired ih =>
      rw [List.cons_append, List.cons_append, codePoints.eq_3, if_pos paired, codePoints.eq_3,
        if_pos paired, ih, Option.map_bind, Option.bind_map]
      refine Option.bind_congr fun first _ => ?_
      rw [Function.comp_apply, Option.map_map]
      rfl
  | case4 before following others unpaired ih =>
      rw [List.cons_append, List.cons_append, codePoints.eq_3, if_neg unpaired, codePoints.eq_3,
        if_neg unpaired]
      split_ifs
      · rfl
      · rw [← List.cons_append, ih, Option.map_bind, Option.bind_map]
        refine Option.bind_congr fun first _ => ?_
        rw [Function.comp_apply, Option.map_map]
        rfl

end CodePoints

section Encode

variable {kept : Nat → Bool} {unit : CodeUnit} {text : JsString}

theorem codePoints_of_plain (plain : ∀ unit ∈ text, isSurrogate unit = false) :
    codePoints text = some (text.map UInt16.toNat) := by
  induction text with
  | nil => rfl
  | cons unit rest ih =>
      obtain ⟨own, others⟩ := List.forall_mem_cons.mp plain
      rw [codePoints_cons own, ih others]
      rfl

/-- A kept unit that is no surrogate is encoded apart from what is around it. -/
theorem encode_append_cons (plain : isSurrogate unit = false) (stays : kept unit.toNat = true)
    (front rest : JsString) :
    encode kept (front ++ unit :: rest) =
      (encode kept front).bind fun first => (encode kept rest).map fun last =>
        first ++ unit :: last := by
  have own : escaped kept unit.toNat = [unit] := by
    rw [escaped, if_pos stays, (scalar_of_plain plain).2]
  unfold encode
  rw [codePoints_append_cons plain, Option.map_bind, Option.bind_map]
  refine Option.bind_congr fun first _ => ?_
  dsimp only [Function.comp_apply]
  rw [Option.map_map, Option.map_map]
  refine Option.map_congr fun last _ => ?_
  rw [Function.comp_apply, Function.comp_apply, List.flatMap_append, List.flatMap_cons, own]
  rfl

/-- Whether a unit is kept does not matter to a text without it. -/
theorem encode_or (plain : isSurrogate unit = false) (absent : unit ∉ text) :
    encode (fun value => kept value || value = unit.toNat) text = encode kept text := by
  refine Option.map_congr fun values known => List.flatMap_congr fun value listed => ?_
  have other : value ≠ unit.toNat := by
    rintro rfl
    rw [← (codePoints_spec known).1, List.mem_flatMap] at absent
    refine absent ⟨_, listed, ?_⟩
    rw [(scalar_of_plain plain).2]
    exact List.mem_singleton_self unit
  rw [escaped, escaped, decide_eq_false other, Bool.or_false]

theorem length_codePointUnits_le (value : Nat) : (codePointUnits value).length ≤ 2 := by
  unfold codePointUnits
  split_ifs
  · exact Nat.le_succ 1
  · exact Nat.le_refl 2

/-- An escape is longer than what it stands for. -/
theorem length_lt_of_escaped {value : Nat} (escapes : kept value = false) :
    (codePointUnits value).length < (escaped kept value).length := by
  have some : bytes value ≠ [] := by
    unfold bytes
    split_ifs <;> exact List.cons_ne_nil _ _
  obtain ⟨lead, more, octets⟩ := List.exists_cons_of_ne_nil some
  rw [escaped, escapes, if_neg Bool.false_ne_true, octets, List.flatMap_cons, List.length_append]
  exact Nat.lt_of_lt_of_le (Nat.lt_succ_of_le (length_codePointUnits_le value))
    (Nat.le_add_right 3 _)

/-- A text that is encoded as itself is kept. -/
theorem kept_of_encode_eq {values : List Nat}
    (same : values.flatMap (escaped kept) = values.flatMap codePointUnits) :
    ∀ value ∈ values, kept value = true := by
  have longer : ∀ value, (codePointUnits value).length ≤ (escaped kept value).length := by
    intro value
    cases stays : kept value with
    | true => rw [escaped, if_pos stays]
    | false => exact (length_lt_of_escaped stays).le
  intro value listed
  by_contra escapes
  rw [Bool.not_eq_true] at escapes
  have less : (values.map fun value => (codePointUnits value).length).sum <
      (values.map fun value => (escaped kept value).length).sum :=
    List.sum_lt_sum _ _ (fun value _ => longer value)
      ⟨value, listed, length_lt_of_escaped escapes⟩
  have lengths := congrArg List.length same
  rw [List.length_flatMap, List.length_flatMap] at lengths
  exact absurd lengths less.ne'

theorem lt_of_isUnreserved {value : Nat} (unreserved : isUnreserved value = true) :
    value < 128 := by
  unfold isUnreserved at unreserved
  simp only [Bool.or_eq_true, Bool.and_eq_true, decide_eq_true_eq] at unreserved
  omega

/-- **Components that stand for themselves.** They are those of unreserved units. -/
theorem encodeURIComponent_eq_self_iff :
    encodeURIComponent text = some text ↔ ∀ unit ∈ text, isUnreserved unit.toNat = true := by
  constructor
  · intro same unit listed
    obtain ⟨values, known, encoded⟩ := Option.map_eq_some_iff.mp same
    have whole := (codePoints_spec known).1
    have stays := kept_of_encode_eq (encoded.trans whole.symm)
    rw [← whole] at listed
    obtain ⟨value, member, inner⟩ := List.mem_flatMap.mp listed
    have bound := lt_of_isUnreserved (stays value member)
    rw [codePointUnits, if_pos (by omega), List.mem_singleton] at inner
    rw [inner, UInt16.toNat_ofNat_of_lt' (Nat.lt_trans bound (by decide))]
    exact stays value member
  · intro stays
    have plain : ∀ unit ∈ text, isSurrogate unit = false := by
      intro unit listed
      have bound := lt_of_isUnreserved (stays unit listed)
      rw [← Bool.not_eq_true, isSurrogate, Bool.or_eq_true, Utf8.isHighSurrogate_iff,
        Utf8.isLowSurrogate_iff]
      omega
    have own : ∀ unit ∈ text, escaped isUnreserved unit.toNat = [unit] := by
      intro unit listed
      rw [escaped, if_pos (stays unit listed), (scalar_of_plain (plain unit listed)).2]
    rw [encodeURIComponent, encode, codePoints_of_plain plain, Option.map_some, List.flatMap_map,
      List.flatMap_congr own, List.flatMap_singleton']

end Encode

section Decode

variable {kept : Nat → Bool} {value : Nat} {values : List Nat}

theorem hexValue_escapeDigit {value : Nat} (small : value < 16) :
    hexValue (escapeDigit value) = some value := by
  revert value
  decide

theorem escapedByte_escapeByte (byte : UInt8) (rest : JsString) :
    escapedByte (escapeByte byte ++ rest) = some (byte, rest) := by
  have bound := byte.toNat_lt
  have whole : byte.toNat / 16 * 16 + byte.toNat % 16 = byte.toNat := by omega
  rw [escapeByte, List.cons_append, List.cons_append, List.cons_append, List.nil_append,
    escapedByte, if_pos rfl, hexValue_escapeDigit (by omega), hexValue_escapeDigit (by omega)]
  dsimp only [Option.bind_eq_bind, Option.bind_some, Option.pure_def]
  rw [whole, UInt8.ofNat_toNat]

theorem escapedBytes_flatMap (octets : List UInt8) (rest : JsString) :
    escapedBytes octets.length (octets.flatMap escapeByte ++ rest) = some (octets, rest) := by
  induction octets with
  | nil => rfl
  | cons byte octets ih =>
      rw [List.flatMap_cons, List.append_assoc, List.length_cons, escapedBytes,
        escapedByte_escapeByte]
      dsimp only [Option.bind_eq_bind, Option.bind_some]
      rw [ih]
      rfl

/-- The first byte of a code point tells how many there are. -/
theorem byteCount_bytes (bounded : value < 0x110000) :
    ∃ lead more, bytes value = lead :: more ∧ byteCount lead.toNat = more.length + 1 := by
  unfold bytes byteCount
  split_ifs with one two three
  · refine ⟨_, _, rfl, ?_⟩
    rw [Utf8.toNat_ofNat (by omega), if_pos one]
    rfl
  · refine ⟨_, _, rfl, ?_⟩
    rw [Utf8.toNat_ofNat (by omega), if_neg (by omega), if_neg (by omega), if_pos (by omega)]
    rfl
  · refine ⟨_, _, rfl, ?_⟩
    rw [Utf8.toNat_ofNat (by omega), if_neg (by omega), if_neg (by omega), if_neg (by omega),
      if_pos (by omega)]
    rfl
  · refine ⟨_, _, rfl, ?_⟩
    rw [Utf8.toNat_ofNat (by omega), if_neg (by omega), if_neg (by omega), if_neg (by omega),
      if_neg (by omega), if_pos (by omega)]
    rfl

theorem scalarOf_bytes (scalar : IsScalar value) : scalarOf (bytes value) = some value := by
  have bounded := scalar.1
  have same : octetsValue (bytes value) = value := by
    unfold bytes
    split_ifs with one two three
    · rw [octetsValue, List.foldl_nil, Utf8.toNat_ofNat (by omega), leadValue, if_pos one]
    · rw [octetsValue, List.foldl_cons, List.foldl_nil, Utf8.toNat_ofNat (by omega),
        Utf8.toNat_ofNat (by omega), leadValue, if_neg (by omega), if_pos (by omega)]
      omega
    · rw [octetsValue, List.foldl_cons, List.foldl_cons, List.foldl_nil,
        Utf8.toNat_ofNat (by omega), Utf8.toNat_ofNat (by omega), Utf8.toNat_ofNat (by omega),
        leadValue, if_neg (by omega), if_neg (by omega), if_pos (by omega)]
      omega
    · rw [octetsValue, List.foldl_cons, List.foldl_cons, List.foldl_cons, List.foldl_nil,
        Utf8.toNat_ofNat (by omega), Utf8.toNat_ofNat (by omega), Utf8.toNat_ofNat (by omega),
        Utf8.toNat_ofNat (by omega), leadValue, if_neg (by omega), if_neg (by omega),
        if_neg (by omega)]
      omega
  rw [scalarOf, same, if_pos ⟨scalar, rfl⟩]

/-- The units of a code point other than the percent sign are no percent sign. -/
theorem ne_percent_of_mem (scalar : IsScalar value) (other : value ≠ 37) :
    ∀ unit ∈ codePointUnits value, unit ≠ percent := by
  obtain ⟨bounded, apart⟩ := scalar
  have large : ∀ number : Nat, number < 65536 → number ≠ 37 → UInt16.ofNat number ≠ percent := by
    intro number small different same
    have numbers := congrArg UInt16.toNat same
    rw [UInt16.toNat_ofNat_of_lt' small] at numbers
    exact different numbers
  unfold codePointUnits
  split_ifs with small
  · exact List.forall_mem_singleton.mpr (large value small other)
  · exact List.forall_mem_cons.mpr ⟨large _ (by omega) (by omega),
      List.forall_mem_singleton.mpr (large _ (by omega) (by omega))⟩

theorem decodeLoop_nil (fuel : Nat) : decodeLoop fuel [] = some [] := by
  cases fuel <;> rfl

/-- Units that are no percent sign stand for themselves. -/
theorem decodeLoop_units {front : JsString} (plain : ∀ unit ∈ front, unit ≠ percent) (fuel : Nat)
    (rest : JsString) :
    decodeLoop (fuel + front.length) (front ++ rest) =
      (decodeLoop fuel rest).map (front ++ ·) := by
  induction front with
  | nil => exact Option.map_id'.symm ▸ rfl
  | cons unit front ih =>
      rw [List.length_cons, ← Nat.add_assoc, List.cons_append, decodeLoop,
        if_pos (plain unit List.mem_cons_self),
        ih fun other member => plain other (List.mem_cons_of_mem _ member), Option.map_map]
      rfl

/-- The escapes of a code point stand for it. -/
theorem decodeLoop_bytes (scalar : IsScalar value) (fuel : Nat) (rest : JsString) :
    decodeLoop (fuel + 1) ((bytes value).flatMap escapeByte ++ rest) =
      (decodeLoop fuel rest).map (codePointUnits value ++ ·) := by
  obtain ⟨lead, more, octets, count⟩ := byteCount_bytes scalar.1
  have some : byteCount lead.toNat ≠ 0 := by
    rw [count]
    exact Nat.succ_ne_zero _
  have all := escapedBytes_flatMap (lead :: more) rest
  have first := escapedByte_escapeByte lead (more.flatMap escapeByte ++ rest)
  have read := scalarOf_bytes scalar
  rw [List.length_cons, ← count, List.flatMap_cons, List.append_assoc] at all
  rw [octets] at read ⊢
  rw [List.flatMap_cons, List.append_assoc]
  change decodeLoop (fuel + 1) (percent :: _) = _
  rw [decodeLoop, if_neg (not_not_intro rfl)]
  change ((escapedByte (escapeByte lead ++ _)).bind _) = _
  rw [first, Option.bind_some]
  dsimp only
  rw [if_neg some]
  change ((escapedBytes _ (escapeByte lead ++ _)).bind _) = _
  rw [all, Option.bind_some]
  dsimp only [Option.bind_eq_bind]
  rw [read, Option.bind_some]
  exact (Option.map_eq_bind ..).symm

/-- **Decoding an encoded text.** What was escaped stands for itself again. -/
theorem decodeURIComponent_escaped (mark : kept 37 = false)
    (scalars : ∀ value ∈ values, IsScalar value) :
    decodeURIComponent (values.flatMap (escaped kept)) = some (values.flatMap codePointUnits) := by
  have loops : ∀ fuel, (values.flatMap (escaped kept)).length ≤ fuel →
      decodeLoop fuel (values.flatMap (escaped kept)) = some (values.flatMap codePointUnits) := by
    induction values with
    | nil => exact fun fuel _ => decodeLoop_nil fuel
    | cons value values ih =>
        intro fuel few
        obtain ⟨scalar, others⟩ := List.forall_mem_cons.mp scalars
        rw [List.flatMap_cons, List.length_append] at few
        rw [List.flatMap_cons, List.flatMap_cons]
        cases stays : kept value with
        | true =>
            have units : escaped kept value = codePointUnits value := by
              rw [escaped, stays, if_pos rfl]
            have other : value ≠ 37 := by
              rintro rfl
              exact Bool.false_ne_true (mark.symm.trans stays)
            rw [units] at few ⊢
            obtain ⟨extra, rfl⟩ := Nat.exists_eq_add_of_le' (Nat.le_of_add_right_le few)
            rw [decodeLoop_units (ne_percent_of_mem scalar other), ih others extra (by omega),
              Option.map_some]
        | false =>
            have escapes : escaped kept value = (bytes value).flatMap escapeByte := by
              rw [escaped, stays, if_neg Bool.false_ne_true]
            obtain ⟨lead, more, octets, _⟩ := byteCount_bytes scalar.1
            have long : 0 < (escaped kept value).length := by
              rw [escapes, octets, List.flatMap_cons, List.length_append]
              exact Nat.lt_of_lt_of_le (by decide : 0 < 3) (Nat.le_add_right _ _)
            obtain ⟨extra, rfl⟩ : ∃ extra, fuel = extra + 1 := Nat.exists_eq_add_one.mpr (by omega)
            rw [escapes, decodeLoop_bytes scalar, ih others extra (by omega), Option.map_some]
  exact loops _ (Nat.le_refl _)

/-- **An encoded text is read back.** -/
theorem decodeURIComponent_encode {text component : JsString} (mark : kept 37 = false)
    (encoded : encode kept text = some component) : decodeURIComponent component = some text := by
  obtain ⟨values, known, rfl⟩ := Option.map_eq_some_iff.mp encoded
  obtain ⟨whole, scalars⟩ := codePoints_spec known
  rw [decodeURIComponent_escaped mark scalars, whole]

theorem decodeURIComponent_encodeURIComponent {text component : JsString}
    (encoded : encodeURIComponent text = some component) :
    decodeURIComponent component = some text :=
  decodeURIComponent_encode (by decide) encoded

/-- A unit of an escape. -/
def isEscapeUnit (unit : CodeUnit) : Bool :=
  unit = percent || (48 ≤ unit && unit ≤ 57) || (65 ≤ unit && unit ≤ 70)

theorem isEscapeUnit_of_mem {octets : List UInt8} :
    ∀ unit ∈ octets.flatMap escapeByte, isEscapeUnit unit = true := by
  have digit : ∀ value < 16, isEscapeUnit (escapeDigit value) = true := by decide
  intro unit member
  obtain ⟨byte, _, inner⟩ := List.mem_flatMap.mp member
  have bound := byte.toNat_lt
  rw [escapeByte] at inner
  rcases List.mem_cons.mp inner with rfl | inner
  · decide
  rcases List.mem_cons.mp inner with rfl | inner
  · exact digit _ (by omega)
  · rw [List.mem_singleton.mp inner]
    exact digit _ (by omega)

/-- The units of an encoded text are those of kept code points and of escapes. -/
theorem mem_escaped {unit : CodeUnit} (member : unit ∈ values.flatMap (escaped kept)) :
    (∃ value ∈ values, kept value = true ∧ unit ∈ codePointUnits value) ∨
      isEscapeUnit unit = true := by
  obtain ⟨value, listed, inner⟩ := List.mem_flatMap.mp member
  rw [escaped] at inner
  split_ifs at inner with stays
  · exact .inl ⟨value, listed, stays, inner⟩
  · exact .inr (isEscapeUnit_of_mem unit inner)

end Decode

end Uri
