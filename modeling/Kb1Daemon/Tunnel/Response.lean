import Kb1Daemon.Foundation.JsonPretty
import Kb1Daemon.Tunnel.Base64
import Kb1Daemon.Tunnel.Mux

/-! # Sending responses

A response that fits into one frame is sent as one; a larger one is cut into chunks. The chunks are
sized by the frame without its body, and as base64 text stands in a frame as it is, every chunk
stays within its frame (`encodedLength_chunk_le`). The frame without its body grows with the digits
of the sequence number, so a body is delivered as long as the chunks in front of the first one
without room hold it; a response without a body is sent whatever its size
(`sendHttpResponse_delivers_iff`).
-/

namespace Kb1Daemon

open Json (Visible)
open JsString (decimal)
open Utf8 (byteLength)

structure TunnelHttpResponseEnvelope where
  id : JsString
  status : Nat
  headers : List (JsString × JsString)
  bodyB64 : Option JsString
  deriving DecidableEq, Repr

structure TunnelHttpResponseStartEnvelope where
  id : JsString
  status : Nat
  headers : List (JsString × JsString)
  totalBytes : Nat
  deriving DecidableEq, Repr

structure TunnelHttpResponseChunkEnvelope where
  id : JsString
  sequence : Nat
  bodyB64 : JsString
  deriving DecidableEq, Repr

structure TunnelHttpResponseEndEnvelope where
  id : JsString
  chunks : Nat
  deriving DecidableEq, Repr

/-- A message that carries a response or a part of it. -/
inductive TunnelHttpResponseMessage where
  | response (envelope : TunnelHttpResponseEnvelope)
  | start (envelope : TunnelHttpResponseStartEnvelope)
  | chunk (envelope : TunnelHttpResponseChunkEnvelope)
  | finish (envelope : TunnelHttpResponseEndEnvelope)
  deriving DecidableEq, Repr

/-- A record of strings. -/
def stringRecord (entries : List (JsString × JsString)) : Json :=
  .object (entries.map fun entry => (entry.1, .string entry.2))

/-- The message as it is written. -/
def TunnelHttpResponseMessage.json : TunnelHttpResponseMessage → Json
  | .response envelope => .object
      [(units "type", .string (units "http.response")), (units "id", .string envelope.id),
        (units "status", .natural envelope.status),
        (units "headers", stringRecord envelope.headers),
        (units "bodyB64", envelope.bodyB64.elim .null .string)]
  | .start envelope => .object
      [(units "type", .string (units "http.response.start")), (units "id", .string envelope.id),
        (units "status", .natural envelope.status),
        (units "headers", stringRecord envelope.headers),
        (units "totalBytes", .natural envelope.totalBytes)]
  | .chunk envelope => .object
      [(units "type", .string (units "http.response.chunk")), (units "id", .string envelope.id),
        (units "sequence", .natural envelope.sequence),
        (units "bodyB64", .string envelope.bodyB64)]
  | .finish envelope => .object
      [(units "type", .string (units "http.response.end")), (units "id", .string envelope.id),
        (units "chunks", .natural envelope.chunks)]

/-- The number of bytes of a message. -/
def encodedLength (message : TunnelHttpResponseMessage) : Nat :=
  byteLength (Json.stringify message.json)

/-- How sending ends. -/
inductive SendOutcome where
  | returned
  | metadataExceeded
  | notAcknowledged
  deriving DecidableEq, Repr

/-- What has been sent when sending ends. -/
structure Sending where
  messages : List TunnelHttpResponseMessage
  outcome : SendOutcome
  deriving DecidableEq, Repr

/-- A message sent before others. -/
def Sending.after (message : TunnelHttpResponseMessage) (sending : Sending) : Sending :=
  ⟨message :: sending.messages, sending.outcome⟩

/-- What happens while a response is sent: the request may be cancelled when a number of messages
has been sent, and the chunk of a sequence number may not be acknowledged. Without
acknowledgements every chunk counts as acknowledged. -/
structure SendEvents where
  canceled : Nat → Bool
  acknowledged : Nat → Bool

/-- The chunk of a sequence number without its body. -/
def emptyChunk (id : JsString) (sequence : Nat) : TunnelHttpResponseMessage :=
  .chunk ⟨id, sequence, []⟩

/-- The number of bytes that have room in the chunk of a sequence number. -/
def chunkBytes (id : JsString) (sequence : Nat) : Int :=
  ((tunnelWsFrameByteLimit : Int) - encodedLength (emptyChunk id sequence)) / 4 * 3

/-- The chunks of a body from an offset on. Every chunk takes at least one byte, so the number of
bytes is fuel enough. -/
def sendChunks (events : SendEvents) (id : JsString) (body : Bytes) :
    (fuel sequence offset : Nat) → Sending
  | 0, _, _ => ⟨[], .returned⟩
  | fuel + 1, sequence, offset =>
      if offset < body.length then
        if events.canceled (sequence + 1) then ⟨[], .returned⟩
        else if chunkBytes id sequence ≤ 0 then ⟨[], .metadataExceeded⟩
        else
          let chunk := (body.drop offset).take (chunkBytes id sequence).toNat
          let message := TunnelHttpResponseMessage.chunk ⟨id, sequence, toBase64 chunk⟩
          if events.acknowledged sequence then
            (sendChunks events id body fuel (sequence + 1) (offset + chunk.length)).after message
          else ⟨[message], .notAcknowledged⟩
      else if events.canceled (sequence + 1) then ⟨[], .returned⟩
      else ⟨[.finish ⟨id, sequence⟩], .returned⟩

def sendHttpResponse (buffers : BufferBase64) (events : SendEvents)
    (envelope : TunnelHttpResponseEnvelope) : Sending :=
  match envelope.bodyB64 with
  | none => ⟨[.response envelope], .returned⟩
  | some bodyB64 =>
      if bodyB64 = [] then ⟨[.response envelope], .returned⟩
      else if encodedLength (.response { envelope with bodyB64 := some [] }) + bodyB64.length ≤
          tunnelWsFrameByteLimit then ⟨[.response envelope], .returned⟩
      else
        let body := buffers.fromBase64 bodyB64
        if events.canceled 0 then ⟨[], .returned⟩
        else
          (sendChunks events envelope.id body (body.length + 1) 0 0).after
            (.start ⟨envelope.id, envelope.status, envelope.headers, body.length⟩)

section Lengths

/-- Base64 text in the last member of a record takes one byte for each symbol. -/
theorem byteLength_object_concat (entry : JsString × Json) (entries : List (JsString × Json))
    (key : JsString) {value : JsString} (visible : ∀ unit ∈ value, Visible unit) :
    byteLength (Json.stringify (.object (entry :: (entries ++ [(key, .string value)])))) =
      byteLength (Json.stringify (.object (entry :: (entries ++ [(key, .string [])])))) +
        value.length := by
  have apart : ∀ text rest : JsString, (text ++ [58, Json.quote]).getLast?.any Json.isHighSurrogate =
      true → rest.head?.any Json.isLowSurrogate = false := by
    intro text rest high
    have last : (text ++ [58, Json.quote]).getLast? = some Json.quote := List.getLast?_append
    rw [last] at high
    exact absurd high (by decide)
  have shape : ∀ rest : JsString,
      byteLength (123 :: (Json.stringifyEntry entry ++ (Json.stringifyEntries entries ++
          44 :: (Json.stringifyString key ++ [58, Json.quote]))) ++ rest) =
        byteLength (123 :: (Json.stringifyEntry entry ++ (Json.stringifyEntries entries ++
          44 :: (Json.stringifyString key ++ [58, Json.quote])))) + byteLength rest := by
    intro rest
    have ends := apart (123 :: (Json.stringifyEntry entry ++ (Json.stringifyEntries entries ++
      44 :: Json.stringifyString key))) rest
    simp only [List.cons_append, List.append_assoc] at ends
    exact Utf8.byteLength_append ends
  rw [Json.stringify_object_concat, Json.stringify_object_concat, shape, shape,
    Json.escape_of_visible visible, Utf8.byteLength_visible_append visible]
  change _ = _ + byteLength ([] ++ _) + _
  rw [List.nil_append]
  omega

theorem encodedLength_response (envelope : TunnelHttpResponseEnvelope) (body : Bytes) :
    encodedLength (.response { envelope with bodyB64 := some (toBase64 body) }) =
      encodedLength (.response { envelope with bodyB64 := some [] }) + (toBase64 body).length :=
  byteLength_object_concat _ [_, _, _] (units "bodyB64") (visible_toBase64 body)

theorem encodedLength_chunk (id : JsString) (sequence : Nat) (body : Bytes) :
    encodedLength (.chunk ⟨id, sequence, toBase64 body⟩) =
      encodedLength (emptyChunk id sequence) + (toBase64 body).length :=
  byteLength_object_concat _ [_, _] (units "bodyB64") (visible_toBase64 body)

theorem visible_decimal (number : Nat) : ∀ unit ∈ decimal number, Visible unit := by
  intro unit listed
  have digit := List.all_eq_true.mp (JsString.isDigit_decimal number) unit listed
  rw [JsString.isDigit, Bool.and_eq_true, decide_eq_true_eq, decide_eq_true_eq,
    UInt16.le_iff_toNat_le, UInt16.le_iff_toNat_le] at digit
  have low : 48 ≤ unit.toNat := digit.1
  have high : unit.toNat ≤ 57 := digit.2
  refine ⟨by omega, by omega, ?_, ?_⟩
  · rintro rfl
    exact absurd low (by decide)
  · rintro rfl
    exact absurd high (by decide)

theorem stringify_natural (number : Nat) : Json.stringify (.natural number) = decimal number := by
  have unsigned : decimal number ≠ units "-0" := by
    intro same
    have digits := JsString.isDigit_decimal number
    rw [same] at digits
    exact absurd digits (by decide)
  simp only [Json.natural, Json.stringify, if_neg unsigned]

/-- A chunk without its body grows with the digits of its sequence number. -/
theorem encodedLength_emptyChunk (id : JsString) (sequence : Nat) :
    encodedLength (emptyChunk id sequence) =
      61 + byteLength (Json.stringifyString id) + (decimal sequence).length := by
  have shape : Json.stringify (emptyChunk id sequence).json =
      units "\x7b\"type\":\"http.response.chunk\",\"id\":" ++ (Json.stringifyString id ++
        (units ",\"sequence\":" ++ (decimal sequence ++ units ",\"bodyB64\":\"\"\x7d"))) := by
    simp only [emptyChunk, TunnelHttpResponseMessage.json, Json.stringify, Json.stringifyEntry,
      Json.stringifyEntries, stringify_natural]
    simp only [List.append_assoc, List.cons_append]
    rfl
  have closed : ∀ rest : JsString, (Json.stringifyString id).getLast?.any Json.isHighSurrogate =
      true → rest.head?.any Json.isLowSurrogate = false := by
    intro rest high
    have last : (Json.stringifyString id).getLast? = some Json.quote := List.getLast?_append
    rw [last] at high
    exact absurd high (by decide)
  rw [encodedLength, shape, Utf8.byteLength_append (fun high => absurd high (by decide)),
    Utf8.byteLength_append (closed _),
    Utf8.byteLength_append (fun high => absurd high (by decide)),
    Utf8.byteLength_visible_append (visible_decimal sequence)]
  have before : byteLength (units "\x7b\"type\":\"http.response.chunk\",\"id\":") = 35 := by
    decide +kernel
  have between : byteLength (units ",\"sequence\":") = 12 := by decide +kernel
  have behind : byteLength (units ",\"bodyB64\":\"\"\x7d") = 14 := by decide +kernel
  omega

/-- The number of bytes that have room beside an id whose text takes `idBytes` bytes and a sequence
number of `digits` digits: three for every four base64 symbols. -/
def frameRoom (idBytes digits : Nat) : Int :=
  ((tunnelWsFrameByteLimit : Int) - (61 + idBytes + digits)) / 4 * 3

/-- The room of the chunk of a sequence number. -/
def bodyRoom (id : JsString) (sequence : Nat) : Int :=
  frameRoom (byteLength (Json.stringifyString id)) (decimal sequence).length

theorem chunkBytes_eq (id : JsString) (sequence : Nat) :
    chunkBytes id sequence = bodyRoom id sequence := by
  rw [chunkBytes, encodedLength_emptyChunk, bodyRoom, frameRoom]
  rfl

/-- Later chunks have no more room. -/
theorem bodyRoom_le (id : JsString) {sequence later : Nat} (order : sequence ≤ later) :
    bodyRoom id later ≤ bodyRoom id sequence := by
  have digits := JsString.length_decimal_le order
  rw [bodyRoom, bodyRoom, frameRoom, frameRoom]
  omega

/-- **Room.** A chunk of no more bytes than have room fits into a frame. -/
theorem encodedLength_chunk_le {id : JsString} {sequence : Nat} {chunk : Bytes}
    (room : (chunk.length : Int) ≤ bodyRoom id sequence) :
    encodedLength (.chunk ⟨id, sequence, toBase64 chunk⟩) ≤ tunnelWsFrameByteLimit := by
  rw [← chunkBytes_eq, chunkBytes] at room
  rw [encodedLength_chunk, length_toBase64]
  omega

end Lengths

/-- Some chunks from a sequence number on have room for bytes, and all of them are acknowledged. -/
def HasRoom (acknowledged : Nat → Bool) (id : JsString) (sequence bytes : Nat) : Prop :=
  ∃ count, (bytes : Int) ≤ ((List.range' sequence count).map (bodyRoom id)).sum ∧
    ∀ place ∈ List.range' sequence count, acknowledged place = true

/-- Chunks that carry bytes from a sequence number on, each within a frame. -/
structure Chunked (buffers : BufferBase64) (id : JsString) (sequence : Nat) (bytes : Bytes)
    (chunks : List TunnelHttpResponseChunkEnvelope) : Prop where
  own : ∀ chunk ∈ chunks, chunk.id = id
  within : ∀ chunk ∈ chunks, encodedLength (.chunk chunk) ≤ tunnelWsFrameByteLimit
  numbered : chunks.map TunnelHttpResponseChunkEnvelope.sequence =
    List.range' sequence chunks.length
  bodies : (chunks.map fun chunk => buffers.fromBase64 chunk.bodyB64).flatten = bytes

/-- Sending the chunks of bytes and the end. -/
def Finishes (buffers : BufferBase64) (id : JsString) (sequence : Nat) (bytes : Bytes)
    (sending : Sending) : Prop :=
  sending.outcome = .returned ∧ ∃ chunks, Chunked buffers id sequence bytes chunks ∧
    sending.messages = chunks.map .chunk ++ [.finish ⟨id, sequence + chunks.length⟩]

section Loop

variable {buffers : BufferBase64} {acknowledged : Nat → Bool} {id : JsString} {sequence : Nat}

theorem sum_bodyRoom_nonpos (none : bodyRoom id sequence ≤ 0) (count : Nat) :
    ((List.range' sequence count).map (bodyRoom id)).sum ≤ 0 := by
  induction count generalizing sequence with
  | zero => exact Int.le_refl _
  | succ count ih =>
      have later : ((List.range' (sequence + 1) count).map (bodyRoom id)).sum ≤ 0 :=
        ih ((bodyRoom_le id (Nat.le_succ sequence)).trans none)
      rw [List.range'_succ, List.map_cons, List.sum_cons]
      omega

theorem not_hasRoom_of_nonpos (none : bodyRoom id sequence ≤ 0) {bytes : Nat}
    (some : 0 < bytes) : ¬ HasRoom acknowledged id sequence bytes := by
  rintro ⟨count, fits, _⟩
  have full := sum_bodyRoom_nonpos none count
  omega

theorem HasRoom.acknowledged_of_pos {bytes : Nat}
    (room : HasRoom acknowledged id sequence bytes) (some : 0 < bytes) :
    acknowledged sequence = true := by
  obtain ⟨count, fits, all⟩ := room
  cases count with
  | zero =>
      change (bytes : Int) ≤ 0 at fits
      omega
  | succ count => exact all sequence (List.mem_range'_1.mpr ⟨Nat.le_refl _, by omega⟩)

/-- One chunk takes its bytes, and the later ones have room for the others. -/
theorem hasRoom_iff_of_acknowledged (positive : 0 < bodyRoom id sequence)
    (own : acknowledged sequence = true) (bytes : Nat) :
    HasRoom acknowledged id sequence bytes ↔
      HasRoom acknowledged id (sequence + 1) (bytes - (bodyRoom id sequence).toNat) := by
  constructor
  · rintro ⟨count, fits, all⟩
    by_cases last : (bytes : Int) ≤ bodyRoom id sequence
    · exact ⟨0, by change ((_ : Nat) : Int) ≤ 0; omega, nofun⟩
    · cases count with
      | zero =>
          change (bytes : Int) ≤ 0 at fits
          omega
      | succ count =>
          rw [List.range'_succ, List.map_cons, List.sum_cons] at fits
          rw [List.range'_succ] at all
          exact ⟨count, by omega, fun place listed => all place (List.mem_cons_of_mem _ listed)⟩
  · rintro ⟨count, fits, all⟩
    by_cases last : (bytes : Int) ≤ bodyRoom id sequence
    · refine ⟨1, ?_, ?_⟩
      · rw [List.range'_one, List.map_singleton, List.sum_singleton]
        exact last
      · intro place listed
        rw [List.range'_one] at listed
        rwa [List.mem_singleton.mp listed]
    · refine ⟨count + 1, ?_, ?_⟩
      · rw [List.range'_succ, List.map_cons, List.sum_cons]
        omega
      · rw [List.range'_succ]
        intro place listed
        rcases List.mem_cons.mp listed with rfl | later
        · exact own
        · exact all place later

/-- Without cancellation the loop sends all chunks and the end if they have room, and throws
otherwise. -/
theorem sendChunks_spec (buffers : BufferBase64) (acknowledged : Nat → Bool) (id : JsString)
    (body : Bytes) {fuel sequence offset : Nat} (within : offset ≤ body.length)
    (fueled : body.length - offset < fuel) :
    (HasRoom acknowledged id sequence (body.length - offset) →
        Finishes buffers id sequence (body.drop offset)
          (sendChunks ⟨fun _ => false, acknowledged⟩ id body fuel sequence offset)) ∧
      (¬ HasRoom acknowledged id sequence (body.length - offset) →
        (sendChunks ⟨fun _ => false, acknowledged⟩ id body fuel sequence offset).outcome ≠
          .returned) := by
  induction fuel generalizing sequence offset with
  | zero => exact absurd fueled (Nat.not_lt_zero _)
  | succ fuel ih =>
      rw [sendChunks, chunkBytes_eq]
      by_cases more : offset < body.length
      · have some : 0 < body.length - offset := by omega
        rw [if_pos more, if_neg Bool.false_ne_true]
        by_cases full : bodyRoom id sequence ≤ 0
        · rw [if_pos full]
          exact ⟨fun room => absurd room (not_hasRoom_of_nonpos full some), fun _ => nofun⟩
        · rw [if_neg full]
          dsimp only
          by_cases own : acknowledged sequence = true
          · rw [if_pos own]
            have taken : ((body.drop offset).take (bodyRoom id sequence).toNat).length =
                min (bodyRoom id sequence).toNat (body.length - offset) := by
              rw [List.length_take, List.length_drop]
            have left : body.length - (offset + ((body.drop offset).take
                (bodyRoom id sequence).toNat).length) =
                  body.length - offset - (bodyRoom id sequence).toNat := by
              omega
            obtain ⟨finishes, throws⟩ := @ih (sequence + 1) (offset + ((body.drop offset).take
              (bodyRoom id sequence).toNat).length) (by omega) (by omega)
            rw [left, ← hasRoom_iff_of_acknowledged (Int.not_le.mp full) own] at finishes throws
            refine ⟨fun room => ?_, throws⟩
            obtain ⟨returned, chunks, chunked, sent⟩ := finishes room
            refine ⟨returned, ⟨id, sequence, toBase64 ((body.drop offset).take
              (bodyRoom id sequence).toNat)⟩ :: chunks, ⟨?_, ?_, ?_, ?_⟩, ?_⟩
            · intro chunk listed
              rcases List.mem_cons.mp listed with rfl | later
              · rfl
              · exact chunked.own chunk later
            · intro chunk listed
              rcases List.mem_cons.mp listed with rfl | later
              · exact encodedLength_chunk_le (by omega)
              · exact chunked.within chunk later
            · rw [List.map_cons, chunked.numbered, List.length_cons, List.range'_succ]
            · rw [List.map_cons, List.flatten_cons, chunked.bodies, buffers.fromBase64_toBase64]
              have rest : body.drop (offset + ((body.drop offset).take
                  (bodyRoom id sequence).toNat).length) =
                    (body.drop offset).drop (bodyRoom id sequence).toNat := by
                rw [← List.drop_drop, taken]
                by_cases last : (bodyRoom id sequence).toNat ≤ body.length - offset
                · rw [Nat.min_eq_left last]
                · have length : (body.drop offset).length = body.length - offset := List.length_drop
                  rw [Nat.min_eq_right (by omega), List.drop_of_length_le (by omega),
                    List.drop_of_length_le (by omega)]
              rw [rest, List.take_append_drop]
            · rw [Sending.after, sent, List.map_cons, List.length_cons, List.cons_append,
                Nat.add_assoc, Nat.add_comm 1]
          · rw [if_neg own]
            exact ⟨fun room => absurd (room.acknowledged_of_pos some) own, fun _ => nofun⟩
      · have none : body.length - offset = 0 := by omega
        rw [if_neg more, if_neg Bool.false_ne_true, none]
        refine ⟨fun _ => ⟨rfl, [], ⟨nofun, nofun, rfl, ?_⟩, rfl⟩, fun full => absurd ?_ full⟩
        · exact (List.drop_of_length_le (by omega)).symm
        · exact ⟨0, Int.le_refl _, nofun⟩

/-- The first chunk is sent if it has room. -/
theorem exists_chunk_of_room (acknowledged : Nat → Bool) {body : Bytes} (some : 0 < body.length)
    (positive : 0 < bodyRoom id 0) :
    ∃ chunk, .chunk chunk ∈
      (sendChunks ⟨fun _ => false, acknowledged⟩ id body (body.length + 1) 0 0).messages := by
  rw [sendChunks, chunkBytes_eq, if_pos some, if_neg Bool.false_ne_true,
    if_neg (Int.not_le.mpr positive)]
  dsimp only
  by_cases own : acknowledged 0 = true
  · rw [if_pos own]
    exact ⟨_, List.mem_cons_self⟩
  · rw [if_neg own]
    exact ⟨_, List.mem_cons_self⟩

end Loop

/-- The envelope of a response whose body is written as base64. -/
def responseEnvelope (id : JsString) (status : Nat) (headers : List (JsString × JsString))
    (body : Option Bytes) : TunnelHttpResponseEnvelope :=
  ⟨id, status, headers, body.map toBase64⟩

/-- A response is refused before a chunk is sent, or it is delivered: in one frame, or as a start,
chunks within their frames and an end. -/
def Delivers (buffers : BufferBase64) (envelope : TunnelHttpResponseEnvelope)
    (body : Option Bytes) (sending : Sending) : Prop :=
  sending.outcome ≠ .returned ∧ (∀ chunk, .chunk chunk ∉ sending.messages) ∨
    sending.outcome = .returned ∧
      (sending.messages = [.response envelope] ∧
          encodedLength (.response envelope) ≤ tunnelWsFrameByteLimit ∨
        ∃ bytes, body = some bytes ∧ ∃ chunks, Chunked buffers envelope.id 0 bytes chunks ∧
          sending.messages =
            .start ⟨envelope.id, envelope.status, envelope.headers, bytes.length⟩ ::
              (chunks.map .chunk ++ [.finish ⟨envelope.id, chunks.length⟩]))

/-- The lengths that sending goes by are never smaller than those of the frames. -/
def EstimatesLengths (id : JsString) (status : Nat) (headers : List (JsString × JsString)) : Prop :=
  ∀ bytes : Bytes,
    encodedLength (.response (responseEnvelope id status headers (some bytes))) ≤
        encodedLength (.response (responseEnvelope id status headers (some []))) +
          (toBase64 bytes).length ∧
      ∀ sequence, encodedLength (.chunk ⟨id, sequence, toBase64 bytes⟩) ≤
        encodedLength (emptyChunk id sequence) + (toBase64 bytes).length

theorem estimatesLengths (id : JsString) (status : Nat) (headers : List (JsString × JsString)) :
    EstimatesLengths id status headers := fun bytes =>
  ⟨(encodedLength_response ⟨id, status, headers, none⟩ bytes).le,
    fun sequence => (encodedLength_chunk id sequence bytes).le⟩

section Responses

variable (buffers : BufferBase64) (acknowledged : Nat → Bool) {id : JsString} {status : Nat}
  {headers : List (JsString × JsString)}

/-- Whole responses are delivered if they fit into a frame. -/
theorem delivers_whole_iff {envelope : TunnelHttpResponseEnvelope} (body : Option Bytes) :
    Delivers buffers envelope body ⟨[.response envelope], .returned⟩ ↔
      encodedLength (.response envelope) ≤ tunnelWsFrameByteLimit := by
  constructor
  · rintro (⟨thrown, _⟩ | ⟨_, ⟨_, fits⟩ | ⟨bytes, _, chunks, _, sent⟩⟩)
    · exact absurd rfl thrown
    · exact fits
    · exact absurd (List.cons.inj sent).1 nofun
  · exact fun fits => .inr ⟨rfl, .inl ⟨rfl, fits⟩⟩

/-- Responses in chunks are delivered if no chunk is sent or all of them have room. -/
theorem delivers_chunks_iff {bytes : Bytes} (some : 0 < bytes.length) :
    Delivers buffers (responseEnvelope id status headers (.some bytes)) (.some bytes)
        ((sendChunks ⟨fun _ => false, acknowledged⟩ id bytes (bytes.length + 1) 0 0).after
          (.start ⟨id, status, headers, bytes.length⟩)) ↔
      bodyRoom id 0 ≤ 0 ∨ HasRoom acknowledged id 0 bytes.length := by
  obtain ⟨finishes, throws⟩ := @sendChunks_spec buffers acknowledged id bytes (bytes.length + 1) 0 0
    (Nat.zero_le _) (Nat.lt_succ_self _)
  constructor
  · rintro (⟨_, unsent⟩ | ⟨returned, _⟩)
    · refine .inl (Int.not_lt.mp fun positive => ?_)
      obtain ⟨chunk, sent⟩ := exists_chunk_of_room acknowledged some positive
      exact unsent chunk (List.mem_cons_of_mem _ sent)
    · exact .inr (by_contra fun full => throws full returned)
  · intro cases
    by_cases room : HasRoom acknowledged id 0 bytes.length
    · obtain ⟨returned, chunks, chunked, sent⟩ := finishes room
      refine .inr ⟨returned, .inr ⟨bytes, rfl, chunks, chunked, ?_⟩⟩
      rw [Sending.after, sent, Nat.zero_add]
      rfl
    · have full := cases.resolve_right room
      refine .inl ⟨throws room, fun chunk sent => ?_⟩
      rw [sendChunks, chunkBytes_eq, if_pos some, if_neg Bool.false_ne_true, if_pos full] at sent
      rcases List.mem_cons.mp sent with same | none
      · exact absurd same nofun
      · exact absurd none List.not_mem_nil

/-- **Responses.** Without cancellation a response is refused before a chunk is sent or delivered
within frames exactly if it fits into one frame, or has a body whose first chunk has no room or
whose chunks all have room and are acknowledged. -/
theorem sendHttpResponse_delivers_iff (id : JsString) (status : Nat)
    (headers : List (JsString × JsString)) (body : Option Bytes) :
    (Delivers buffers (responseEnvelope id status headers body) body
          (sendHttpResponse buffers ⟨fun _ => false, acknowledged⟩
            (responseEnvelope id status headers body)) ∧
        EstimatesLengths id status headers) ↔
      encodedLength (.response (responseEnvelope id status headers body)) ≤
          tunnelWsFrameByteLimit ∨
        ∃ bytes, body = some bytes ∧ bytes ≠ [] ∧
          (bodyRoom id 0 ≤ 0 ∨ HasRoom acknowledged id 0 bytes.length) := by
  rw [and_iff_left (estimatesLengths id status headers)]
  have whole : (∀ bytes, body = some bytes → bytes = []) →
      ((encodedLength (.response (responseEnvelope id status headers body)) ≤
          tunnelWsFrameByteLimit) ↔
        encodedLength (.response (responseEnvelope id status headers body)) ≤
            tunnelWsFrameByteLimit ∨
          ∃ bytes, body = some bytes ∧ bytes ≠ [] ∧
            (bodyRoom id 0 ≤ 0 ∨ HasRoom acknowledged id 0 bytes.length)) := fun empty =>
    (or_iff_left fun ⟨bytes, same, present, _⟩ => present (empty bytes same)).symm
  cases body with
  | none => exact (delivers_whole_iff buffers none).trans (whole nofun)
  | some bytes =>
      by_cases empty : bytes = []
      · subst empty
        exact (delivers_whole_iff buffers (some [])).trans
          (whole fun bytes same => (Option.some.inj same).symm)
      · have length : 0 < bytes.length := List.length_pos_iff.mpr empty
        have text : toBase64 bytes ≠ [] := by
          intro none
          have symbols := length_toBase64 bytes
          rw [none] at symbols
          change 0 = _ at symbols
          omega
        have estimate : encodedLength (.response (responseEnvelope id status headers
            (some bytes))) = encodedLength (.response { responseEnvelope id status headers
              (some bytes) with bodyB64 := some [] }) + (toBase64 bytes).length :=
          encodedLength_response (responseEnvelope id status headers (some bytes)) bytes
        change Delivers _ _ _ (if toBase64 bytes = [] then _ else if _ + _ ≤ _ then _ else _) ↔ _
        rw [if_neg text, ← estimate]
        by_cases fits : encodedLength (.response (responseEnvelope id status headers
            (some bytes))) ≤ tunnelWsFrameByteLimit
        · rw [if_pos fits]
          exact (delivers_whole_iff buffers (some bytes)).trans
            ⟨.inl, fun _ => fits⟩
        · rw [if_neg fits]
          dsimp only
          rw [if_neg Bool.false_ne_true, buffers.fromBase64_toBase64]
          refine (delivers_chunks_iff buffers acknowledged length).trans
            ⟨fun cases => .inr ⟨bytes, rfl, empty, cases⟩, ?_⟩
          rintro (small | ⟨others, same, _, cases⟩)
          · exact absurd small fits
          · cases same
            exact cases

end Responses

/-- The text of a response without a body. -/
theorem stringify_emptyResponse {id : JsString} (visible : ∀ unit ∈ id, Visible unit) :
    Json.stringify (TunnelHttpResponseMessage.json (.response (responseEnvelope id 204
        [(units "content-type", units "text/plain; charset=utf-8")] (some [])))) =
      units "\x7b\"type\":\"http.response\",\"id\":\"" ++ (id ++
        units ("\",\"status\":204,\"headers\":\x7b\"content-type\":" ++
          "\"text/plain; charset=utf-8\"\x7d,\"bodyB64\":\"\"\x7d")) := by
  have own : Json.stringifyString id = Json.quote :: id ++ [Json.quote] := by
    rw [Json.stringifyString, Json.escape_of_visible visible]
  simp only [responseEnvelope, TunnelHttpResponseMessage.json, stringRecord, Json.stringify,
    Json.stringifyEntries, Json.stringifyEntry, stringify_natural, own, List.map_cons,
    List.map_nil, Option.map_some, Option.elim_some, List.append_assoc, List.cons_append]
  rfl

/-- A response without a body is sent in one frame even if that frame is larger than the limit. -/
theorem not_delivers_above_limit :
    ¬ Delivers platformBuffers (responseEnvelope (List.replicate 262050 97) 204
        [(units "content-type", units "text/plain; charset=utf-8")] (some [])) (some [])
      (sendHttpResponse platformBuffers ⟨fun _ => false, fun _ => true⟩
        (responseEnvelope (List.replicate 262050 97) 204
          [(units "content-type", units "text/plain; charset=utf-8")] (some []))) := by
  refine (delivers_whole_iff platformBuffers (some [])).not.mpr (Nat.not_le.mpr ?_)
  have visible : ∀ unit ∈ List.replicate 262050 97, Visible unit := by
    intro unit listed
    rw [List.eq_of_mem_replicate listed]
    exact ⟨by decide, by decide, by decide, by decide⟩
  rw [encodedLength, stringify_emptyResponse visible,
    Utf8.byteLength_append (fun high => absurd high (by decide)),
    Utf8.byteLength_visible_append visible, List.length_replicate]
  have before : byteLength (units "\x7b\"type\":\"http.response\",\"id\":\"") = 30 := by
    decide +kernel
  have behind : byteLength (units ("\",\"status\":204,\"headers\":\x7b\"content-type\":" ++
      "\"text/plain; charset=utf-8\"\x7d,\"bodyB64\":\"\"\x7d")) = 83 := by
    decide +kernel
  change 262144 < _
  omega

end Kb1Daemon
