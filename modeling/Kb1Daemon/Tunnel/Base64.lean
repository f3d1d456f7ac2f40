import Kb1Daemon.Foundation.JsonCompact

/-! # Bytes as base64 text

The tunnel carries bytes as base64 text. The platform's `btoa` and `atob` enter through
what is documented of them, and once as a concrete pair for the runs of this development
(`platformBase64`).
-/

namespace Kb1Daemon

abbrev Bytes := List UInt8

/-- The platform's `btoa`, on strings of bytes, and `atob`, which undoes it and throws an error,
given as its text, for what is no base64. -/
structure Base64 where
  btoa : JsString → JsString
  atob : JsString → Except JsString JsString
  atob_btoa : ∀ binary : JsString, (∀ unit ∈ binary, unit < 256) →
    atob (btoa binary) = .ok binary
  btoa_empty : btoa [] = []

namespace Base64

variable (base64 : Base64)

/-- The binary string of bytes, made of slices; the fuel bounds their number. -/
def binaryLoop : Nat → Bytes → JsString
  | 0, _ => []
  | fuel + 1, bytes =>
      if bytes.isEmpty then []
      else (bytes.take 0x8000).map UInt8.toUInt16 ++ binaryLoop fuel (bytes.drop 0x8000)

def bytesToBase64 (bytes : Bytes) : JsString := base64.btoa (binaryLoop bytes.length bytes)

def base64ToBytes (text : JsString) : Except JsString Bytes :=
  (base64.atob text).map fun binary => binary.map UInt16.toUInt8

/-- The bytes of a text, and none where `atob` throws. -/
def bytesOf (text : JsString) : Bytes :=
  match base64.base64ToBytes text with
  | .ok bytes => bytes
  | .error _ => []

theorem binaryLoop_eq {fuel : Nat} {bytes : Bytes} (fueled : bytes.length ≤ fuel) :
    binaryLoop fuel bytes = bytes.map UInt8.toUInt16 := by
  induction fuel generalizing bytes with
  | zero =>
      obtain rfl := List.length_eq_zero_iff.mp (Nat.le_zero.mp fueled)
      rfl
  | succ fuel ih =>
      unfold binaryLoop
      split
      · rename_i empty
        obtain rfl := List.isEmpty_iff.mp empty
        rfl
      · rename_i some
        have positive : 0 < bytes.length := by
          rw [List.length_pos_iff]
          exact fun empty => some (List.isEmpty_iff.mpr empty)
        rw [ih (by rw [List.length_drop]; omega), ← List.map_append, List.take_append_drop]

theorem base64ToBytes_bytesToBase64 (bytes : Bytes) :
    base64.base64ToBytes (base64.bytesToBase64 bytes) = .ok bytes := by
  unfold base64ToBytes bytesToBase64
  rw [binaryLoop_eq (Nat.le_refl _), base64.atob_btoa]
  · refine congrArg Except.ok ((List.map_map ..).trans ?_)
    conv_rhs => rw [← List.map_id bytes]
    congr 1
    funext byte
    exact UInt8.toUInt8_toUInt16 byte
  · intro unit member
    obtain ⟨byte, _, rfl⟩ := List.mem_map.mp member
    rw [UInt16.lt_iff_toNat_lt]
    exact byte.toNat_lt

theorem bytesOf_bytesToBase64 (bytes : Bytes) :
    base64.bytesOf (base64.bytesToBase64 bytes) = bytes := by
  rw [bytesOf, base64ToBytes_bytesToBase64]

theorem bytesToBase64_nil : base64.bytesToBase64 [] = [] := base64.btoa_empty

end Base64

/-- The symbol of six bits. -/
def base64Symbol (bits : Nat) : CodeUnit :=
  (units "ABCDEFGHIJKLMNOPQRSTUVWXYZabcdefghijklmnopqrstuvwxyz0123456789+/").getD bits 0

/-- `=`, which fills the last group. -/
def base64Padding : CodeUnit := 61

/-- The six bits of a symbol. -/
def base64Value (symbol : CodeUnit) : Nat :=
  if symbol = base64Padding then 0
  else (units "ABCDEFGHIJKLMNOPQRSTUVWXYZabcdefghijklmnopqrstuvwxyz0123456789+/").idxOf symbol

/-- `btoa`, on the units below 256. -/
def base64Encode : JsString → JsString
  | [] => []
  | [first] =>
      [base64Symbol (first.toNat / 4), base64Symbol (first.toNat % 4 * 16), base64Padding,
        base64Padding]
  | [first, second] =>
      [base64Symbol (first.toNat / 4),
        base64Symbol (first.toNat % 4 * 16 + second.toNat / 16),
        base64Symbol (second.toNat % 16 * 4), base64Padding]
  | first :: second :: third :: rest =>
      base64Symbol (first.toNat / 4) ::
        base64Symbol (first.toNat % 4 * 16 + second.toNat / 16) ::
        base64Symbol (second.toNat % 16 * 4 + third.toNat / 64) ::
        base64Symbol (third.toNat % 64) :: base64Encode rest

/-- The units of a text in groups of four symbols. -/
def base64Decode : JsString → JsString
  | first :: second :: third :: fourth :: rest =>
      let head := UInt16.ofNat (base64Value first * 4 + base64Value second / 16)
      let middle := UInt16.ofNat (base64Value second % 16 * 16 + base64Value third / 4)
      let last := UInt16.ofNat (base64Value third % 4 * 64 + base64Value fourth)
      if third = base64Padding then [head]
      else if fourth = base64Padding then [head, middle]
      else head :: middle :: last :: base64Decode rest
  | _ => []

theorem base64Symbol_value {bits : Nat} (small : bits < 64) :
    base64Value (base64Symbol bits) = bits ∧ base64Symbol bits ≠ base64Padding := by
  have all : ∀ bits : Fin 64, base64Value (base64Symbol bits) = bits ∧
      base64Symbol bits ≠ base64Padding := by decide +kernel
  exact all ⟨bits, small⟩

theorem base64Decode_encode (binary : JsString) (bytes : ∀ unit ∈ binary, unit < 256) :
    base64Decode (base64Encode binary) = binary := by
  have small : ∀ unit ∈ binary, unit.toNat < 256 :=
    fun unit member => UInt16.lt_iff_toNat_lt.mp (bytes unit member)
  have back : ∀ (unit : CodeUnit) (value : Nat), value = unit.toNat → UInt16.ofNat value = unit := by
    rintro unit value rfl
    exact UInt16.ofNat_toNat
  induction binary using base64Encode.induct with
  | case1 => rfl
  | case2 first =>
      have one := small first List.mem_cons_self
      have head := base64Symbol_value (show first.toNat / 4 < 64 by omega)
      have tail := base64Symbol_value (show first.toNat % 4 * 16 < 64 by omega)
      rw [base64Encode, base64Decode, if_pos rfl, head.1, tail.1, back first _ (by omega)]
  | case3 first second =>
      have one := small first List.mem_cons_self
      have two := small second (List.mem_cons_of_mem _ List.mem_cons_self)
      have head := base64Symbol_value (show first.toNat / 4 < 64 by omega)
      have middle := base64Symbol_value
        (show first.toNat % 4 * 16 + second.toNat / 16 < 64 by omega)
      have tail := base64Symbol_value (show second.toNat % 16 * 4 < 64 by omega)
      rw [base64Encode, base64Decode, if_neg tail.2, if_pos rfl, head.1, middle.1, tail.1,
        back first _ (by omega), back second _ (by omega)]
  | case4 first second third rest ih =>
      have one := small first List.mem_cons_self
      have two := small second (List.mem_cons_of_mem _ List.mem_cons_self)
      have three := small third
        (List.mem_cons_of_mem _ (List.mem_cons_of_mem _ List.mem_cons_self))
      have head := base64Symbol_value (show first.toNat / 4 < 64 by omega)
      have middle := base64Symbol_value
        (show first.toNat % 4 * 16 + second.toNat / 16 < 64 by omega)
      have next := base64Symbol_value
        (show second.toNat % 16 * 4 + third.toNat / 64 < 64 by omega)
      have tail := base64Symbol_value (show third.toNat % 64 < 64 by omega)
      have others : ∀ {holds : CodeUnit → Prop},
          (∀ unit ∈ first :: second :: third :: rest, holds unit) → ∀ unit ∈ rest, holds unit :=
        fun all unit member => all unit (List.mem_cons_of_mem _ (List.mem_cons_of_mem _
          (List.mem_cons_of_mem _ member)))
      rw [base64Encode, base64Decode, if_neg next.2, if_neg tail.2, head.1, middle.1, next.1,
        tail.1, back first _ (by omega), back second _ (by omega), back third _ (by omega),
        ih (others bytes) (others small)]

/-- Every group of up to three units makes four symbols. -/
theorem length_base64Encode (binary : JsString) :
    (base64Encode binary).length = (binary.length + 2) / 3 * 4 := by
  induction binary using base64Encode.induct with
  | case1 => rfl
  | case2 => simp [base64Encode]
  | case3 => simp [base64Encode]
  | case4 first second third rest ih =>
      simp only [base64Encode, List.length_cons, ih]
      omega

/-- A symbol is visible. -/
theorem visible_base64Symbol {bits : Nat} (small : bits < 64) :
    Json.Visible (base64Symbol bits) := by
  have all : ∀ bits : Fin 64, Json.Visible (base64Symbol bits) := by decide +kernel
  exact all ⟨bits, small⟩

/-- Base64 text stands in a written string as it is. -/
theorem visible_base64Encode {binary : JsString} (bytes : ∀ unit ∈ binary, unit.toNat < 256) :
    ∀ symbol ∈ base64Encode binary, Json.Visible symbol := by
  have padding : Json.Visible base64Padding := by decide
  induction binary using base64Encode.induct with
  | case1 => exact nofun
  | case2 first =>
      have one := bytes first List.mem_cons_self
      simp only [base64Encode, List.mem_cons, List.not_mem_nil, or_false]
      rintro symbol (rfl | rfl | rfl | rfl)
      · exact visible_base64Symbol (by omega)
      · exact visible_base64Symbol (by omega)
      · exact padding
      · exact padding
  | case3 first second =>
      have one := bytes first List.mem_cons_self
      have two := bytes second (List.mem_cons_of_mem _ List.mem_cons_self)
      simp only [base64Encode, List.mem_cons, List.not_mem_nil, or_false]
      rintro symbol (rfl | rfl | rfl | rfl)
      · exact visible_base64Symbol (by omega)
      · exact visible_base64Symbol (by omega)
      · exact visible_base64Symbol (by omega)
      · exact padding
  | case4 first second third rest ih =>
      have one := bytes first List.mem_cons_self
      have two := bytes second (List.mem_cons_of_mem _ List.mem_cons_self)
      have three := bytes third
        (List.mem_cons_of_mem _ (List.mem_cons_of_mem _ List.mem_cons_self))
      simp only [base64Encode, List.mem_cons]
      rintro symbol (rfl | rfl | rfl | rfl | later)
      · exact visible_base64Symbol (by omega)
      · exact visible_base64Symbol (by omega)
      · exact visible_base64Symbol (by omega)
      · exact visible_base64Symbol (by omega)
      · exact ih (fun unit listed => bytes unit (List.mem_cons_of_mem _
          (List.mem_cons_of_mem _ (List.mem_cons_of_mem _ listed)))) symbol later

/-- The white space that `atob` skips. -/
def isAsciiWhitespace (unit : CodeUnit) : Bool := unit ∈ [9, 10, 12, 13, 32]

/-- A text without its padding, of which there are at most two symbols. -/
def withoutPadding (symbols : JsString) : JsString :=
  symbols.take (symbols.length -
    min 2 (symbols.reverse.takeWhile (· = base64Padding)).length)

def invalidBase64 : JsString :=
  units "InvalidCharacterError: The string to be decoded is not correctly encoded."

/-- `atob`: padding may be missing, and the bits that are left over do not count. -/
def base64Atob (text : JsString) : Except JsString JsString :=
  let symbols := text.filter fun unit => !isAsciiWhitespace unit
  let data := if symbols.length % 4 = 0 then withoutPadding symbols else symbols
  if data.length % 4 = 1 ∨ data.any fun symbol => 64 ≤ base64Value symbol ∨ symbol = base64Padding
  then .error invalidBase64
  else .ok (base64Decode (data ++ List.replicate ((4 - data.length % 4) % 4) base64Padding))

/-- A text that `btoa` makes is made of symbols and at most two paddings. -/
theorem base64Encode_eq (binary : JsString) (bytes : ∀ unit ∈ binary, unit.toNat < 256) :
    ∃ data padding, padding ≤ 2 ∧ (data.length + padding) % 4 = 0 ∧
      (∀ symbol ∈ data, ∃ bits < 64, symbol = base64Symbol bits) ∧
      base64Encode binary = data ++ List.replicate padding base64Padding := by
  induction binary using base64Encode.induct with
  | case1 => exact ⟨[], 0, by omega, rfl, nofun, rfl⟩
  | case2 first =>
      have one := bytes first List.mem_cons_self
      refine ⟨[_, _], 2, by omega, Nat.mod_self 4, ?_, rfl⟩
      simp only [List.mem_cons, List.not_mem_nil, or_false]
      rintro symbol (rfl | rfl)
      · exact ⟨_, by omega, rfl⟩
      · exact ⟨_, by omega, rfl⟩
  | case3 first second =>
      have one := bytes first List.mem_cons_self
      have two := bytes second (List.mem_cons_of_mem _ List.mem_cons_self)
      refine ⟨[_, _, _], 1, by omega, Nat.mod_self 4, ?_, rfl⟩
      simp only [List.mem_cons, List.not_mem_nil, or_false]
      rintro symbol (rfl | rfl | rfl)
      · exact ⟨_, by omega, rfl⟩
      · exact ⟨_, by omega, rfl⟩
      · exact ⟨_, by omega, rfl⟩
  | case4 first second third rest ih =>
      have one := bytes first List.mem_cons_self
      have two := bytes second (List.mem_cons_of_mem _ List.mem_cons_self)
      have three := bytes third
        (List.mem_cons_of_mem _ (List.mem_cons_of_mem _ List.mem_cons_self))
      obtain ⟨data, padding, few, groups, symbols, same⟩ := ih fun unit listed =>
        bytes unit (List.mem_cons_of_mem _ (List.mem_cons_of_mem _
          (List.mem_cons_of_mem _ listed)))
      refine ⟨base64Symbol (first.toNat / 4) ::
        base64Symbol (first.toNat % 4 * 16 + second.toNat / 16) ::
        base64Symbol (second.toNat % 16 * 4 + third.toNat / 64) ::
        base64Symbol (third.toNat % 64) :: data, padding, few, ?_, ?_, ?_⟩
      · simp only [List.length_cons]
        omega
      · simp only [List.mem_cons]
        rintro symbol (rfl | rfl | rfl | rfl | later)
        · exact ⟨_, by omega, rfl⟩
        · exact ⟨_, by omega, rfl⟩
        · exact ⟨_, by omega, rfl⟩
        · exact ⟨_, by omega, rfl⟩
        · exact symbols symbol later
      · rw [base64Encode, same]
        rfl

/-- Padding is taken off again. -/
theorem withoutPadding_append {data : JsString} (plain : ∀ symbol ∈ data, symbol ≠ base64Padding)
    {padding : Nat} (few : padding ≤ 2) :
    withoutPadding (data ++ List.replicate padding base64Padding) = data := by
  have last : data.reverse.takeWhile (· = base64Padding) = [] := by
    cases shape : data.reverse with
    | nil => rfl
    | cons symbol rest =>
        have listed : symbol ∈ data := List.mem_reverse.mp (shape ▸ List.mem_cons_self)
        exact List.takeWhile_cons_of_neg (by simpa using plain symbol listed)
  have count : ((data ++ List.replicate padding base64Padding).reverse.takeWhile
      (· = base64Padding)).length = padding := by
    rw [List.reverse_append, List.reverse_replicate, List.takeWhile_append_of_pos, last,
      List.append_nil, List.length_replicate]
    intro symbol listed
    exact decide_eq_true (List.eq_of_mem_replicate listed)
  rw [withoutPadding, count, List.length_append, List.length_replicate, Nat.min_eq_right few,
    Nat.add_sub_cancel, List.take_left]

theorem not_whitespace_base64Symbol {bits : Nat} (small : bits < 64) :
    isAsciiWhitespace (base64Symbol bits) = false := by
  have all : ∀ bits : Fin 64, isAsciiWhitespace (base64Symbol bits) = false := by decide +kernel
  exact all ⟨bits, small⟩

/-- **The platform's pair.** What `btoa` makes of bytes, `atob` undoes. -/
theorem base64Atob_encode (binary : JsString) (bytes : ∀ unit ∈ binary, unit < 256) :
    base64Atob (base64Encode binary) = .ok binary := by
  obtain ⟨data, padding, few, groups, symbols, same⟩ := base64Encode_eq binary
    fun unit member => UInt16.lt_iff_toNat_lt.mp (bytes unit member)
  have visible : (base64Encode binary).filter (fun unit => !isAsciiWhitespace unit) =
      base64Encode binary := by
    refine List.filter_eq_self.mpr fun unit listed => ?_
    rw [same] at listed
    rcases List.mem_append.mp listed with inside | filled
    · obtain ⟨bits, small, rfl⟩ := symbols unit inside
      rw [not_whitespace_base64Symbol small]
      rfl
    · rw [List.eq_of_mem_replicate filled]
      rfl
  have plain : ∀ symbol ∈ data, symbol ≠ base64Padding := by
    intro symbol listed
    obtain ⟨bits, small, rfl⟩ := symbols symbol listed
    exact (base64Symbol_value small).2
  have valid : ¬ (data.length % 4 = 1 ∨
      data.any fun symbol => 64 ≤ base64Value symbol ∨ symbol = base64Padding) := by
    rintro (short | wrong)
    · omega
    · obtain ⟨symbol, listed, wrong⟩ := List.any_eq_true.mp wrong
      obtain ⟨bits, small, rfl⟩ := symbols symbol listed
      rcases of_decide_eq_true wrong with large | filled
      · rw [(base64Symbol_value small).1] at large
        omega
      · exact (base64Symbol_value small).2 filled
  have whole : (base64Encode binary).length % 4 = 0 := by
    rw [same, List.length_append, List.length_replicate, groups]
  have again : data ++ List.replicate ((4 - data.length % 4) % 4) base64Padding =
      base64Encode binary := by
    rw [same, show (4 - data.length % 4) % 4 = padding by omega]
  have stripped : withoutPadding (base64Encode binary) = data :=
    same ▸ withoutPadding_append plain few
  unfold base64Atob
  dsimp only
  rw [visible, if_pos whole, stripped, if_neg valid, again, base64Decode_encode binary bytes]

example : base64Atob (units " QQ") = .ok (units "A") ∧
    base64Atob (units "QQ=") = .error invalidBase64 := by decide +kernel

/-- The base64 of the platform. -/
def platformBase64 : Base64 where
  btoa := base64Encode
  atob := base64Atob
  atob_btoa := base64Atob_encode
  btoa_empty := rfl

/-- `Buffer.toString('base64')`. -/
def toBase64 (bytes : Bytes) : JsString := base64Encode (bytes.map UInt8.toUInt16)

/-- Three bytes take four symbols. -/
theorem length_toBase64 (bytes : Bytes) :
    (toBase64 bytes).length = (bytes.length + 2) / 3 * 4 := by
  rw [toBase64, length_base64Encode, List.length_map]

theorem toNat_lt_of_mem_map {bytes : Bytes} : ∀ unit ∈ bytes.map UInt8.toUInt16,
    unit.toNat < 256 := by
  intro unit listed
  obtain ⟨byte, _, rfl⟩ := List.mem_map.mp listed
  exact byte.toNat_lt

/-- An encoding is visible. -/
theorem visible_toBase64 (bytes : Bytes) : ∀ symbol ∈ toBase64 bytes, Json.Visible symbol :=
  visible_base64Encode toNat_lt_of_mem_map

/-- `Buffer.from(text, 'base64')`, which takes any text and undoes `toBase64`. -/
structure BufferBase64 where
  fromBase64 : JsString → Bytes
  fromBase64_toBase64 : ∀ bytes, fromBase64 (toBase64 bytes) = bytes

/-- The buffers of the platform, on the texts they make. -/
def platformBuffers : BufferBase64 where
  fromBase64 text := (base64Decode text).map UInt16.toUInt8
  fromBase64_toBase64 bytes := by
    rw [toBase64, base64Decode_encode _ fun unit listed =>
      UInt16.lt_iff_toNat_lt.mpr (toNat_lt_of_mem_map unit listed), List.map_map]
    conv_rhs => rw [← List.map_id bytes]
    congr 1
    funext byte
    exact UInt8.toUInt8_toUInt16 byte

end Kb1Daemon
