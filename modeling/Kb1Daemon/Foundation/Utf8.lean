import Kb1Daemon.Foundation.Json

/-! # Text as bytes

A text is encoded code point by code point, and a surrogate without its other half as the
replacement character (`Utf8.encode_toWellFormed`). Decoding puts that in place of what is no encoding; it
undoes the encoding of a text without lone surrogates (`Utf8.decode_encode`).
-/

namespace Utf8

open Json (isHighSurrogate isLowSurrogate)

def replacement : CodeUnit := 0xFFFD

def isSurrogate (unit : CodeUnit) : Bool := isHighSurrogate unit || isLowSurrogate unit

/-- The units of a code point. -/
def codePointUnits (value : Nat) : JsString :=
  if value < 0x10000 then [UInt16.ofNat value]
  else
    [UInt16.ofNat (0xD800 + (value - 0x10000) / 1024),
      UInt16.ofNat (0xDC00 + (value - 0x10000) % 1024)]

/-- The code point of a pair of surrogates. -/
def pairValue (high low : CodeUnit) : Nat :=
  0x10000 + (high.toNat - 0xD800) * 1024 + (low.toNat - 0xDC00)

/-- The code point of a unit that is not half of a pair. -/
def unitValue (unit : CodeUnit) : Nat :=
  if isSurrogate unit then replacement.toNat else unit.toNat

/-- The bytes of a code point. -/
def bytes (value : Nat) : List UInt8 :=
  if value < 0x80 then [UInt8.ofNat value]
  else if value < 0x800 then [UInt8.ofNat (0xC0 + value / 64), UInt8.ofNat (0x80 + value % 64)]
  else if value < 0x10000 then
    [UInt8.ofNat (0xE0 + value / 4096), UInt8.ofNat (0x80 + value / 64 % 64),
      UInt8.ofNat (0x80 + value % 64)]
  else
    [UInt8.ofNat (0xF0 + value / 262144), UInt8.ofNat (0x80 + value / 4096 % 64),
      UInt8.ofNat (0x80 + value / 64 % 64), UInt8.ofNat (0x80 + value % 64)]

def encode : JsString → List UInt8
  | [] => []
  | [unit] => bytes (unitValue unit)
  | unit :: next :: rest =>
      if isHighSurrogate unit && isLowSurrogate next then
        bytes (pairValue unit next) ++ encode rest
      else bytes (unitValue unit) ++ encode (next :: rest)

/-- The text has no surrogate without its other half. -/
def isWellFormed : JsString → Bool
  | [] => true
  | [unit] => !isSurrogate unit
  | unit :: next :: rest =>
      if isHighSurrogate unit && isLowSurrogate next then isWellFormed rest
      else !isSurrogate unit && isWellFormed (next :: rest)

/-- `String.prototype.toWellFormed`, with the replacement character for each lone surrogate. -/
def toWellFormed : JsString → JsString
  | [] => []
  | [unit] => [if isSurrogate unit then replacement else unit]
  | unit :: next :: rest =>
      if isHighSurrogate unit && isLowSurrogate next then unit :: next :: toWellFormed rest
      else (if isSurrogate unit then replacement else unit) :: toWellFormed (next :: rest)

/-- A code point of which some bytes are still to come, and the bounds of the next one. -/
structure Pending where
  needed : Nat
  lower : Nat
  upper : Nat
  value : Nat
  deriving DecidableEq, Repr

/-- The first byte of a code point. -/
def lead (byte : Nat) : JsString × Option Pending :=
  if byte < 0x80 then ([UInt16.ofNat byte], none)
  else if 0xC2 ≤ byte ∧ byte ≤ 0xDF then ([], some ⟨1, 0x80, 0xBF, byte - 0xC0⟩)
  else if 0xE0 ≤ byte ∧ byte ≤ 0xEF then
    ([], some ⟨2, if byte = 0xE0 then 0xA0 else 0x80, if byte = 0xED then 0x9F else 0xBF,
      byte - 0xE0⟩)
  else if 0xF0 ≤ byte ∧ byte ≤ 0xF4 then
    ([], some ⟨3, if byte = 0xF0 then 0x90 else 0x80, if byte = 0xF4 then 0x8F else 0xBF,
      byte - 0xF0⟩)
  else ([replacement], none)

/-- The next byte; one that does not go on with a code point starts another. -/
def next : Option Pending → Nat → JsString × Option Pending
  | none, byte => lead byte
  | some pending, byte =>
      if pending.lower ≤ byte ∧ byte ≤ pending.upper then
        if pending.needed ≤ 1 then
          (codePointUnits (pending.value * 64 + (byte - 0x80)), none)
        else
          ([], some ⟨pending.needed - 1, 0x80, 0xBF, pending.value * 64 + (byte - 0x80)⟩)
      else (replacement :: (lead byte).1, (lead byte).2)

def decodeLoop : Option Pending → List UInt8 → JsString
  | none, [] => []
  | some _, [] => [replacement]
  | pending, byte :: rest =>
      (next pending byte.toNat).1 ++ decodeLoop (next pending byte.toNat).2 rest

def decode (text : List UInt8) : JsString := decodeLoop none text

/-- A unit that is no surrogate is well formed before every text. -/
theorem isWellFormed_cons {unit : CodeUnit} (plain : isSurrogate unit = false) (rest : JsString) :
    isWellFormed (unit :: rest) = isWellFormed rest := by
  have low : isHighSurrogate unit = false := (Bool.or_eq_false_iff.mp plain).1
  cases rest with
  | nil => simp only [isWellFormed, plain, Bool.not_false]
  | cons next rest =>
      rw [isWellFormed, low, Bool.false_and, if_neg Bool.false_ne_true, plain, Bool.not_false,
        Bool.true_and]

/-- A unit that is no surrogate keeps the texts at its sides apart. -/
theorem isWellFormed_append_cons {unit : CodeUnit} (plain : isSurrogate unit = false)
    (front rest : JsString) :
    isWellFormed (front ++ unit :: rest) = (isWellFormed front && isWellFormed rest) := by
  induction front using isWellFormed.induct with
  | case1 => exact isWellFormed_cons plain rest
  | case2 first =>
      have high : isLowSurrogate unit = false := (Bool.or_eq_false_iff.mp plain).2
      simp only [List.singleton_append, isWellFormed, high, Bool.and_false,
        if_neg Bool.false_ne_true, isWellFormed_cons plain]
  | case3 first second others paired ih =>
      rw [List.cons_append, List.cons_append, isWellFormed, if_pos paired, ih, isWellFormed,
        if_pos paired]
  | case4 first second others alone ih =>
      rw [List.cons_append, List.cons_append, isWellFormed, if_neg alone, ← List.cons_append, ih,
        isWellFormed, if_neg alone, Bool.and_assoc]

/-- A text without surrogates is well formed. -/
theorem isWellFormed_of_plain {text : JsString}
    (plain : ∀ unit ∈ text, isSurrogate unit = false) : isWellFormed text = true := by
  induction text with
  | nil => rfl
  | cons unit rest ih =>
      rw [isWellFormed_cons (plain unit List.mem_cons_self)]
      exact ih fun other listed => plain other (List.mem_cons_of_mem unit listed)

/-- A well-formed text has nothing to replace. -/
theorem toWellFormed_eq_self {text : JsString} (formed : isWellFormed text = true) :
    toWellFormed text = text := by
  induction text using toWellFormed.induct with
  | case1 => rfl
  | case2 unit =>
      rw [isWellFormed, Bool.not_eq_true'] at formed
      rw [toWellFormed, formed, if_neg Bool.false_ne_true]
  | case3 unit next rest paired ih =>
      rw [isWellFormed, if_pos paired] at formed
      rw [toWellFormed, if_pos paired, ih formed]
  | case4 unit next rest alone ih =>
      rw [isWellFormed, if_neg alone, Bool.and_eq_true, Bool.not_eq_true'] at formed
      rw [toWellFormed, if_neg alone, formed.1, if_neg Bool.false_ne_true, ih formed.2]

/-- What stands for a unit on disk is no surrogate. -/
theorem isSurrogate_replaced (unit : CodeUnit) :
    isSurrogate (if isSurrogate unit then replacement else unit) = false := by
  split_ifs with lone
  · decide
  · exact (Bool.not_eq_true _).mp lone

/-- What is replaced is well formed. -/
theorem isWellFormed_toWellFormed (text : JsString) : isWellFormed (toWellFormed text) = true := by
  induction text using toWellFormed.induct with
  | case1 => rfl
  | case2 unit => rw [toWellFormed, isWellFormed_cons (isSurrogate_replaced unit), isWellFormed]
  | case3 unit next rest paired ih =>
      rw [toWellFormed, if_pos paired, isWellFormed, if_pos paired]
      exact ih
  | case4 unit next rest alone ih =>
      rw [toWellFormed, if_neg alone, isWellFormed_cons (isSurrogate_replaced unit)]
      exact ih

/-- A unit that is no surrogate stays, and so does what follows. -/
theorem toWellFormed_cons {unit : CodeUnit} (plain : isSurrogate unit = false) (rest : JsString) :
    toWellFormed (unit :: rest) = unit :: toWellFormed rest := by
  have low : isHighSurrogate unit = false := (Bool.or_eq_false_iff.mp plain).1
  cases rest with
  | nil => simp only [toWellFormed, plain, if_neg Bool.false_ne_true]
  | cons next rest =>
      rw [toWellFormed, low, Bool.false_and, if_neg Bool.false_ne_true, plain,
        if_neg Bool.false_ne_true]

/-- A unit that is no surrogate is encoded by itself. -/
theorem encode_cons {unit : CodeUnit} (plain : isSurrogate unit = false) (rest : JsString) :
    encode (unit :: rest) = bytes unit.toNat ++ encode rest := by
  have low : isHighSurrogate unit = false := (Bool.or_eq_false_iff.mp plain).1
  have value : unitValue unit = unit.toNat := by
    rw [unitValue, plain, if_neg Bool.false_ne_true]
  cases rest with
  | nil => simp only [encode, value, List.append_nil]
  | cons next rest =>
      rw [encode, low, Bool.false_and, if_neg Bool.false_ne_true, value]

/-- A text and what is replaced in it have the same bytes. -/
theorem encode_toWellFormed (text : JsString) : encode (toWellFormed text) = encode text := by
  have replaced (unit : CodeUnit) :
      (if isSurrogate unit then replacement else unit).toNat = unitValue unit := by
    unfold unitValue
    split_ifs <;> rfl
  induction text using toWellFormed.induct with
  | case1 => rfl
  | case2 unit =>
      rw [toWellFormed, encode_cons (isSurrogate_replaced unit), replaced, encode, encode,
        List.append_nil]
  | case3 unit next rest paired ih =>
      rw [toWellFormed, if_pos paired, encode, if_pos paired, ih, encode, if_pos paired]
  | case4 unit next rest alone ih =>
      rw [toWellFormed, if_neg alone, encode_cons (isSurrogate_replaced unit), replaced, ih, encode,
        if_neg alone]

/-- Only a text itself becomes one without surrogates and replacements. -/
theorem toWellFormed_eq_iff {text plain : JsString}
    (visible : ∀ unit ∈ plain, isSurrogate unit = false ∧ unit ≠ replacement) :
    toWellFormed text = plain ↔ text = plain := by
  constructor
  · intro same
    rw [← same]
    symm
    refine toWellFormed_eq_self ?_
    rw [← same] at visible
    clear same
    induction text using toWellFormed.induct with
    | case1 => rfl
    | case2 unit =>
        rw [toWellFormed] at visible
        rw [isWellFormed, Bool.not_eq_true', ← Bool.not_eq_true]
        intro lone
        rw [if_pos lone] at visible
        exact (visible _ List.mem_cons_self).2 rfl
    | case3 unit next rest paired ih =>
        rw [toWellFormed, if_pos paired] at visible
        have high := (Bool.and_eq_true_iff.mp paired).1
        have low := (Bool.or_eq_false_iff.mp (visible unit List.mem_cons_self).1).1
        rw [high] at low
        cases low
    | case4 unit next rest alone ih =>
        rw [toWellFormed, if_neg alone] at visible
        rw [isWellFormed, if_neg alone, Bool.and_eq_true, Bool.not_eq_true', ← Bool.not_eq_true]
        refine ⟨fun lone => ?_, ih fun other listed =>
          visible other (List.mem_cons_of_mem _ listed)⟩
        rw [if_pos lone] at visible
        exact (visible _ List.mem_cons_self).2 rfl
  · rintro rfl
    exact toWellFormed_eq_self (isWellFormed_of_plain fun unit listed => (visible unit listed).1)

/-- A code point that is no surrogate. -/
def IsScalar (value : Nat) : Prop :=
  value < 0x110000 ∧ ¬(0xD800 ≤ value ∧ value < 0xE000)

/-- A leading byte begins a code point. -/
theorem decodeLoop_lead (byte : UInt8) (rest : List UInt8) :
    decodeLoop none (byte :: rest) = (lead byte.toNat).1 ++ decodeLoop (lead byte.toNat).2 rest :=
  rfl

/-- A byte within the bounds goes on with its code point. -/
theorem decodeLoop_within {pending : Pending} {byte : UInt8} (rest : List UInt8)
    (within : pending.lower ≤ byte.toNat ∧ byte.toNat ≤ pending.upper)
    (more : 1 < pending.needed) :
    decodeLoop (some pending) (byte :: rest) =
      decodeLoop (some ⟨pending.needed - 1, 0x80, 0xBF, pending.value * 64 + (byte.toNat - 0x80)⟩)
        rest := by
  rw [decodeLoop, next, if_pos within, if_neg (by omega), List.nil_append]

/-- The last byte ends its code point. -/
theorem decodeLoop_last {pending : Pending} {byte : UInt8} (rest : List UInt8)
    (within : pending.lower ≤ byte.toNat ∧ byte.toNat ≤ pending.upper)
    (last : pending.needed ≤ 1) :
    decodeLoop (some pending) (byte :: rest) =
      codePointUnits (pending.value * 64 + (byte.toNat - 0x80)) ++ decodeLoop none rest := by
  rw [decodeLoop, next, if_pos within, if_pos last]

/-- A small number is a byte. -/
theorem toNat_ofNat {value : Nat} (small : value < 256) : (UInt8.ofNat value).toNat = value := by
  rw [UInt8.toNat_ofNat']
  omega

/-- The bytes of a code point are decoded to its units. -/
theorem decodeLoop_bytes {value : Nat} (scalar : IsScalar value) (rest : List UInt8) :
    decodeLoop none (bytes value ++ rest) = codePointUnits value ++ decodeLoop none rest := by
  obtain ⟨bounded, apart⟩ := scalar
  unfold bytes
  split_ifs with one two three
  · rw [List.cons_append, List.nil_append, decodeLoop_lead, toNat_ofNat (by omega), lead,
      if_pos one, codePointUnits, if_pos (by omega)]
  · have whole : (0xC0 + value / 64 - 0xC0) * 64 + (0x80 + value % 64 - 0x80) = value := by
      omega
    rw [List.cons_append, decodeLoop_lead, toNat_ofNat (by omega), lead, if_neg (by omega),
      if_pos (by omega), List.nil_append, List.cons_append, List.nil_append,
      decodeLoop_last _ (by rw [toNat_ofNat (by omega)]; dsimp only; omega) (Nat.le_refl 1),
      toNat_ofNat (by omega), whole]
  · have whole : ((0xE0 + value / 4096 - 0xE0) * 64 + (0x80 + value / 64 % 64 - 0x80)) * 64 +
        (0x80 + value % 64 - 0x80) = value := by
      omega
    have second : (if 0xE0 + value / 4096 = 0xE0 then 0xA0 else 0x80) ≤ 0x80 + value / 64 % 64 ∧
        0x80 + value / 64 % 64 ≤ if 0xE0 + value / 4096 = 0xED then 0x9F else 0xBF := by
      split_ifs <;> omega
    rw [List.cons_append, decodeLoop_lead, toNat_ofNat (by omega), lead, if_neg (by omega),
      if_neg (by omega), if_pos (by omega), List.nil_append, List.cons_append,
      decodeLoop_within _ (by rw [toNat_ofNat (by omega)]; exact second) (show 1 < 2 by decide),
      toNat_ofNat (by omega), List.cons_append, List.nil_append,
      decodeLoop_last _ (by rw [toNat_ofNat (by omega)]; dsimp only; omega) (Nat.le_refl 1),
      toNat_ofNat (by omega), whole]
  · have whole : (((0xF0 + value / 262144 - 0xF0) * 64 + (0x80 + value / 4096 % 64 - 0x80)) * 64 +
        (0x80 + value / 64 % 64 - 0x80)) * 64 + (0x80 + value % 64 - 0x80) = value := by
      omega
    have second : (if 0xF0 + value / 262144 = 0xF0 then 0x90 else 0x80) ≤
          0x80 + value / 4096 % 64 ∧
        0x80 + value / 4096 % 64 ≤ if 0xF0 + value / 262144 = 0xF4 then 0x8F else 0xBF := by
      split_ifs <;> omega
    rw [List.cons_append, decodeLoop_lead, toNat_ofNat (by omega), lead, if_neg (by omega),
      if_neg (by omega), if_neg (by omega), if_pos (by omega), List.nil_append, List.cons_append,
      decodeLoop_within _ (by rw [toNat_ofNat (by omega)]; exact second) (show 1 < 3 by decide),
      toNat_ofNat (by omega), List.cons_append,
      decodeLoop_within _ (by rw [toNat_ofNat (by omega)]; dsimp only; omega)
        (show 1 < 2 by decide),
      toNat_ofNat (by omega), List.cons_append, List.nil_append,
      decodeLoop_last _ (by rw [toNat_ofNat (by omega)]; dsimp only; omega) (Nat.le_refl 1),
      toNat_ofNat (by omega), whole]

/-- The first units of pairs. -/
theorem isHighSurrogate_iff {unit : CodeUnit} :
    isHighSurrogate unit = true ↔ 0xD800 ≤ unit.toNat ∧ unit.toNat < 0xDC00 := by
  rw [isHighSurrogate, Bool.and_eq_true, decide_eq_true_eq, decide_eq_true_eq,
    UInt16.le_iff_toNat_le, UInt16.le_iff_toNat_le]
  exact and_congr_right fun _ => Nat.lt_succ_iff.symm

/-- The second units of pairs. -/
theorem isLowSurrogate_iff {unit : CodeUnit} :
    isLowSurrogate unit = true ↔ 0xDC00 ≤ unit.toNat ∧ unit.toNat < 0xE000 := by
  rw [isLowSurrogate, Bool.and_eq_true, decide_eq_true_eq, decide_eq_true_eq,
    UInt16.le_iff_toNat_le, UInt16.le_iff_toNat_le]
  exact and_congr_right fun _ => Nat.lt_succ_iff.symm

/-- A unit that is no surrogate is its own code point. -/
theorem unit_of_not_surrogate {unit : CodeUnit} (plain : isSurrogate unit = false) :
    IsScalar (unitValue unit) ∧ codePointUnits (unitValue unit) = [unit] := by
  have small := unit.toNat_lt
  rw [unitValue, plain, if_neg Bool.false_ne_true, codePointUnits, if_pos small,
    UInt16.ofNat_toNat]
  refine ⟨⟨by omega, fun surrogate => ?_⟩, rfl⟩
  rw [isSurrogate, Bool.or_eq_false_iff] at plain
  by_cases high : unit.toNat < 0xDC00
  · exact Bool.false_ne_true (plain.1.symm.trans (isHighSurrogate_iff.mpr ⟨surrogate.1, high⟩))
  · exact Bool.false_ne_true
      (plain.2.symm.trans (isLowSurrogate_iff.mpr ⟨by omega, surrogate.2⟩))

/-- A pair of surrogates is the units of its code point. -/
theorem pair_of_surrogates {high low : CodeUnit} (isHigh : isHighSurrogate high = true)
    (isLow : isLowSurrogate low = true) :
    IsScalar (pairValue high low) ∧ codePointUnits (pairValue high low) = [high, low] := by
  have highBounds := isHighSurrogate_iff.mp isHigh
  have lowBounds := isLowSurrogate_iff.mp isLow
  obtain ⟨value, same⟩ : ∃ value, pairValue high low = value := ⟨_, rfl⟩
  have sum : 0x10000 + (high.toNat - 0xD800) * 1024 + (low.toNat - 0xDC00) = value := same
  have first : 0xD800 + (value - 0x10000) / 1024 = high.toNat := by
    omega
  have second : 0xDC00 + (value - 0x10000) % 1024 = low.toNat := by
    omega
  rw [same]
  refine ⟨⟨by omega, by omega⟩, ?_⟩
  rw [codePointUnits, if_neg (by omega), first, second, UInt16.ofNat_toNat, UInt16.ofNat_toNat]

/-- **Decoding undoes the encoding** of a text without lone surrogates. -/
theorem decode_encode {text : JsString} (formed : isWellFormed text = true) :
    decode (encode text) = text := by
  unfold decode
  induction text using encode.induct with
  | case1 => rfl
  | case2 unit =>
      rw [isWellFormed, Bool.not_eq_true'] at formed
      obtain ⟨scalar, same⟩ := unit_of_not_surrogate formed
      rw [encode, ← List.append_nil (bytes _), decodeLoop_bytes scalar, same]
      rfl
  | case3 unit following rest paired ih =>
      rw [isWellFormed, if_pos paired] at formed
      obtain ⟨isHigh, isLow⟩ := Bool.and_eq_true_iff.mp paired
      obtain ⟨scalar, same⟩ := pair_of_surrogates isHigh isLow
      rw [encode, if_pos paired, decodeLoop_bytes scalar, same, ih formed]
      rfl
  | case4 unit following rest unpaired ih =>
      rw [isWellFormed, if_neg unpaired, Bool.and_eq_true, Bool.not_eq_true'] at formed
      obtain ⟨scalar, same⟩ := unit_of_not_surrogate formed.1
      rw [encode, if_neg unpaired, decodeLoop_bytes scalar, same, ih formed.2]
      rfl

/-- Texts are encoded apart unless a pair of surrogates is made where they meet. -/
theorem encode_append {front rest : JsString}
    (apart : front.getLast?.any isHighSurrogate = true → rest.head?.any isLowSurrogate = false) :
    encode (front ++ rest) = encode front ++ encode rest := by
  induction front using encode.induct with
  | case1 => rfl
  | case2 unit =>
      cases rest with
      | nil => rw [List.append_nil, encode, List.append_nil]
      | cons following rest =>
          have alone : ¬ (isHighSurrogate unit && isLowSurrogate following) = true := by
            rw [Bool.and_eq_true]
            intro paired
            exact Bool.false_ne_true ((apart paired.1).symm.trans paired.2)
          change encode (unit :: following :: rest) = _
          rw [encode.eq_3, if_neg alone]
          rfl
  | case3 unit following others paired ih =>
      rw [List.cons_append, List.cons_append, encode, if_pos paired, encode, if_pos paired,
        List.append_assoc, ih]
      intro high
      refine apart ?_
      cases others with
      | nil => cases high
      | cons _ _ => exact high
  | case4 unit following others alone ih =>
      rw [List.cons_append, List.cons_append, encode, if_neg alone, encode, if_neg alone,
        List.append_assoc, ← List.cons_append, ih apart]

/-- The number of bytes of a text. -/
def byteLength (text : JsString) : Nat := (encode text).length

/-- Lengths add up unless a pair is split. -/
theorem byteLength_append {front rest : JsString}
    (apart : front.getLast?.any isHighSurrogate = true → rest.head?.any isLowSurrogate = false) :
    byteLength (front ++ rest) = byteLength front + byteLength rest := by
  rw [byteLength, encode_append apart, List.length_append]
  rfl

/-- The bytes of an array from an index on. -/
theorem toList_loop (array : ByteArray) (index : Nat) (front : List UInt8) :
    ByteArray.toList.loop array index front =
      front.reverse ++ array.data.toList.drop index := by
  induction index, front using ByteArray.toList.loop.induct array with
  | case1 index front inside ih =>
      have next : index < array.data.toList.length := by simpa using inside
      rw [ByteArray.toList.loop, if_pos inside, ih, List.drop_eq_getElem_cons next,
        List.reverse_cons, List.append_assoc]
      simp [ByteArray.get!, getElem!_pos, inside]
  | case2 index front outside =>
      rw [ByteArray.toList.loop, if_neg outside, List.drop_eq_nil_of_le, List.append_nil]
      simpa using outside

/-- The bytes of a literal in parts. -/
theorem toList_toUTF8_append (left right : String) :
    (left ++ right).toUTF8.toList = left.toUTF8.toList ++ right.toUTF8.toList := by
  have bytes (array : ByteArray) : array.toList = array.data.toList :=
    (toList_loop array 0 []).trans (List.nil_append _)
  rw [bytes, bytes, bytes, String.toUTF8_eq_toByteArray, String.toByteArray_append,
    ByteArray.toList_data_append]
  rfl

end Utf8
