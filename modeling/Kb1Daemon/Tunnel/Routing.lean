import Kb1Daemon.Foundation.Utf8
import Kb1Daemon.Tunnel.Url

/-! # Where the daemon routes a request

The router of the daemon is not part of the source, and so a parameter: it decodes the path of a
URL once, as `decodeURI` does, but keeps `%25`, and compares the result with the routes of the
application (`Router`). The route of the snapshot is the one that `createApp` mounts
(`snapshotRoute`).
-/

namespace Kb1Daemon

open JsString Json

/-- The byte of a percent sign and two digits, and the text after them. -/
def percentByte : JsString → Option (Nat × JsString)
  | mark :: high :: low :: rest =>
      if mark = percent then
        (hexValue high).bind fun upper => (hexValue low).map fun lower => (upper * 16 + lower, rest)
      else none
  | _ => none

/-- The units that `decodeURI` leaves encoded. -/
def uriReserved : JsString := units ";/?:@&=+$,#"

/-- The number of bytes after the first one, and the bits that the first one contributes. -/
def leadByte (byte : Nat) : Option (Nat × Nat) :=
  if 0xC0 ≤ byte ∧ byte < 0xE0 then some (1, byte - 0xC0)
  else if 0xE0 ≤ byte ∧ byte < 0xF0 then some (2, byte - 0xE0)
  else if 0xF0 ≤ byte ∧ byte < 0xF8 then some (3, byte - 0xF0)
  else none

/-- The value of a sequence after its first byte, and the text after it. -/
def continuation : Nat → Nat → JsString → Option (Nat × JsString)
  | 0, value, text => some (value, text)
  | count + 1, value, text =>
      (percentByte text).bind fun (byte, rest) =>
        if 0x80 ≤ byte ∧ byte < 0xC0 then continuation count (value * 64 + (byte - 0x80)) rest
        else none

/-- The least value that takes as many further bytes. -/
def leastValue (count : Nat) : Nat :=
  if count = 1 then 0x80 else if count = 2 then 0x800 else 0x10000

/-- A code point that is no surrogate, encoded in as few bytes as it takes. -/
def isScalar (count value : Nat) : Bool :=
  leastValue count ≤ value && value < 0x110000 && !(0xD800 ≤ value && value < 0xE000)

/-- The units that a percent sequence at the front stands for, and the text after it; the sequence
of a preserved unit stays. -/
def decodeSequence (preserved text : JsString) : Option (JsString × JsString) :=
  (percentByte text).bind fun (byte, rest) =>
    if byte < 0x80 then
      if UInt16.ofNat byte ∈ preserved then some (text.take 3, rest)
      else some ([UInt16.ofNat byte], rest)
    else
      (leadByte byte).bind fun (count, bits) =>
        (continuation count bits rest).bind fun (value, rest) =>
          if isScalar count value then some (Utf8.codePointUnits value, rest) else none

def decodeUriLoop (preserved : JsString) : Nat → JsString → Option JsString
  | 0, _ => none
  | _ + 1, [] => some []
  | fuel + 1, unit :: rest =>
      if unit = percent then
        (decodeSequence preserved (unit :: rest)).bind fun (decoded, rest) =>
          (decodeUriLoop preserved fuel rest).map (decoded ++ ·)
      else (decodeUriLoop preserved fuel rest).map (unit :: ·)

/-- A text decoded once, but for the sequences of preserved units; `none` when one cannot be. -/
def decodeUriKeeping (preserved text : JsString) : Option JsString :=
  decodeUriLoop preserved (text.length + 1) text

/-- `decodeURI`; `none` when it throws. -/
def decodeURI (text : JsString) : Option JsString := decodeUriKeeping uriReserved text

/-- The router of the daemon. A path that can be decoded is decoded once, without `%25`; in one that
cannot be, what is no sequence stays as it is. -/
structure Router where
  getPath : JsString → JsString
  decodes : ∀ pathname path, decodeUriKeeping (percent :: uriReserved) pathname = some path →
    getPath pathname = path
  leaves : ∀ pathname, decodeUriKeeping (percent :: uriReserved) pathname = none →
    percent ∈ getPath pathname

/-- `app.route` puts the path of an application before those of its routes. -/
def mergePath (base path : JsString) : JsString := base ++ path

/-- The route of `api.get('/ops/snapshot.zip')` under `app.route('/api', api)`. -/
def snapshotRoute : JsString := mergePath (units "/api") (units "/ops/snapshot.zip")

/-- A request for a path is handled by the route of the snapshot. -/
def Router.RoutesToSnapshot (router : Router) (pathname : JsString) : Prop :=
  router.getPath pathname = snapshotRoute

/-- What can be decoded is, and every other percent sign stays. -/
def decodeLeniently : Nat → JsString → JsString
  | 0, text => text
  | _ + 1, [] => []
  | fuel + 1, unit :: rest =>
      if unit = percent then
        match decodeSequence (percent :: uriReserved) (unit :: rest) with
        | some (decoded, after) => decoded ++ decodeLeniently fuel after
        | none => unit :: decodeLeniently fuel rest
      else unit :: decodeLeniently fuel rest

section Sequences

variable {text rest decoded : JsString} {byte count value : Nat}

theorem hexValue_lt {digit : CodeUnit} {value : Nat} (read : hexValue digit = some value) :
    value < 16 := by
  unfold hexValue at read
  simp only [Bool.and_eq_true, decide_eq_true_eq, UInt16.le_iff_toNat_le] at read
  split_ifs at read <;> cases read <;> simp at * <;> omega

theorem eq_of_hexValue {digit : CodeUnit} {value : Nat} (read : hexValue digit = some value)
    (small : value < 10) : digit = UInt16.ofNat (48 + value) := by
  unfold hexValue at read
  simp only [Bool.and_eq_true, decide_eq_true_eq, UInt16.le_iff_toNat_le] at read
  apply UInt16.toNat_inj.mp
  rw [UInt16.toNat_ofNat_of_lt' (show 48 + value < 65536 by omega)]
  split_ifs at read <;> cases read <;> simp at * <;> omega

/-- A percent sequence is a percent sign and two digits. -/
theorem percentByte_eq (read : percentByte text = some (byte, rest)) :
    ∃ high low upper lower, text = percent :: high :: low :: rest ∧
      hexValue high = some upper ∧ hexValue low = some lower ∧ byte = upper * 16 + lower := by
  match text, read with
  | mark :: high :: low :: after, read =>
      rw [percentByte] at read
      split_ifs at read with sign
      obtain ⟨upper, first, read⟩ := Option.bind_eq_some_iff.mp read
      obtain ⟨lower, second, same⟩ := Option.map_eq_some_iff.mp read
      cases same
      exact ⟨high, low, upper, lower, by rw [sign], first, second, rfl⟩

theorem length_of_percentByte (read : percentByte text = some (byte, rest)) :
    rest.length < text.length := by
  obtain ⟨high, low, upper, lower, rfl, -⟩ := percentByte_eq read
  simp only [List.length_cons]
  omega

theorem length_of_continuation (read : continuation count value text = some (byte, rest)) :
    rest.length ≤ text.length := by
  induction count generalizing value text with
  | zero =>
      cases read
      exact Nat.le_refl _
  | succ count ih =>
      obtain ⟨⟨octet, after⟩, first, more⟩ := Option.bind_eq_some_iff.mp read
      dsimp only at more
      split_ifs at more
      exact Nat.le_trans (ih more) (Nat.le_of_lt (length_of_percentByte first))

/-- A sequence takes some of the text. -/
theorem length_of_decodeSequence {preserved : JsString}
    (read : decodeSequence preserved text = some (decoded, rest)) : rest.length < text.length := by
  obtain ⟨⟨octet, after⟩, first, read⟩ := Option.bind_eq_some_iff.mp read
  have shorter := length_of_percentByte first
  dsimp only at read
  split_ifs at read
  · cases read
    exact shorter
  · cases read
    exact shorter
  · obtain ⟨⟨count, bits⟩, -, read⟩ := Option.bind_eq_some_iff.mp read
    obtain ⟨⟨value, last⟩, continued, read⟩ := Option.bind_eq_some_iff.mp read
    dsimp only at read
    split_ifs at read
    cases read
    exact Nat.lt_of_le_of_lt (length_of_continuation continued) shorter

end Sequences

/-- Where a text can be decoded, decoding it leniently is the same. -/
theorem decodeLeniently_decodes {fuel : Nat} {text path : JsString}
    (decoded : decodeUriLoop (percent :: uriReserved) fuel text = some path) :
    decodeLeniently fuel text = path := by
  induction fuel generalizing text path with
  | zero => cases decoded
  | succ fuel ih =>
      cases text with
      | nil =>
          cases decoded
          rfl
      | cons unit rest =>
          rw [decodeUriLoop] at decoded
          rw [decodeLeniently]
          split_ifs at decoded ⊢
          · obtain ⟨⟨part, after⟩, sequence, more⟩ := Option.bind_eq_some_iff.mp decoded
            obtain ⟨others, tail, rfl⟩ := Option.map_eq_some_iff.mp more
            rw [sequence]
            dsimp only
            rw [ih tail]
          · obtain ⟨others, tail, rfl⟩ := Option.map_eq_some_iff.mp decoded
            rw [ih tail]

theorem percent_mem_decodeLeniently {fuel : Nat} {text : JsString} (fueled : text.length < fuel)
    (stuck : decodeUriLoop (percent :: uriReserved) fuel text = none) :
    percent ∈ decodeLeniently fuel text := by
  induction fuel generalizing text with
  | zero => exact absurd fueled (Nat.not_lt_zero _)
  | succ fuel ih =>
      cases text with
      | nil => cases stuck
      | cons unit rest =>
          rw [decodeUriLoop] at stuck
          rw [decodeLeniently]
          split_ifs at stuck ⊢ with sign
          · cases sequence : decodeSequence (percent :: uriReserved) (unit :: rest) with
            | none => exact sign ▸ List.mem_cons_self
            | some decoded =>
                rw [sequence] at stuck
                have shorter := length_of_decodeSequence sequence
                exact List.mem_append_right _
                  (ih (Nat.lt_of_lt_of_le shorter (Nat.lt_succ_iff.mp fueled))
                    (Option.map_eq_none_iff.mp stuck))
          · exact List.mem_cons_of_mem _
              (ih (Nat.lt_of_succ_lt_succ fueled) (Option.map_eq_none_iff.mp stuck))

/-- A router that decodes each sequence by itself. -/
def lenientRouter : Router where
  getPath pathname := decodeLeniently (pathname.length + 1) pathname
  decodes _ _ := decodeLeniently_decodes
  leaves _ := percent_mem_decodeLeniently (Nat.lt_succ_self _)

example : lenientRouter.getPath (units "/api/ops/snapshot%252Ezip%FF") =
    units "/api/ops/snapshot%252Ezip%FF" := by decide +kernel

end Kb1Daemon
