import Kb1Daemon.Foundation.Machine
import Kb1Daemon.Foundation.Pieces
import Kb1Daemon.Foundation.Table
import Kb1Daemon.Tunnel.Base64

/-! # The document stream codec

A codec cuts the messages of a document stream into numbered frames, releases the frames
while the bytes that are not acknowledged fit into a window, and joins the frames it
receives. What is queued and what was pulled are together the pieces of the enqueued
messages, whatever is acknowledged and when; so a second codec that is fed the pulled
frames returns the enqueued messages (`document_stream_round_trip`).
-/

namespace Kb1Daemon

structure TunnelWebSocketDataEnvelope where
  streamId : JsString
  seq : Nat
  bytesB64 : JsString
  fin : Bool
  deriving DecidableEq, Repr

/-- `atob` takes the text of the frame. -/
def TunnelWebSocketDataEnvelope.readable (base64 : Base64) (frame : TunnelWebSocketDataEnvelope) :
    Bool :=
  (base64.base64ToBytes frame.bytesB64).isOk

/-- A frame that waits for the window, with the number of its bytes. -/
structure OutboundFrame where
  frame : TunnelWebSocketDataEnvelope
  bytes : Nat
  deriving DecidableEq, Repr

structure DocumentStreamCodec where
  streamId : JsString
  chunkBytes : Nat
  windowBytes : Int
  messageByteLimit : Nat
  txSeq : Nat
  unacked : Nat
  unackedBySeq : Table Nat Nat
  outbound : List OutboundFrame
  inbound : List Bytes
  inboundBytes : Nat

structure RangeError where
  streamId : JsString
  messageByteLimit : Nat
  deriving DecidableEq, Repr

def RangeError.message (error : RangeError) : JsString :=
  units "ws.data reassembly for " ++ error.streamId ++ units " exceeded " ++
    units (toString error.messageByteLimit) ++ units " bytes"

/-- What `ingest` throws: its own error, or the one of `atob`, given as its text. -/
inductive IngestError where
  | range (error : RangeError)
  | invalidCharacter (text : JsString)
  deriving DecidableEq, Repr

/-- `String(error)`. -/
def IngestError.text : IngestError → JsString
  | .range error => units "RangeError: " ++ error.message
  | .invalidCharacter text => text

/-- The bytes of chunks whose number is known. -/
def concatBytes (chunks : List Bytes) (totalBytes : Nat) : Bytes :=
  chunks.flatten ++ List.replicate (totalBytes - chunks.flatten.length) 0

namespace DocumentStreamCodec

variable (base64 : Base64)

/-- A new codec. -/
def new (streamId : JsString) (chunkBytes : Nat) (windowBytes : Int) (messageByteLimit : Nat) :
    DocumentStreamCodec where
  streamId := streamId
  chunkBytes := chunkBytes
  windowBytes := windowBytes
  messageByteLimit := messageByteLimit
  txSeq := 0
  unacked := 0
  unackedBySeq := .empty
  outbound := []
  inbound := []
  inboundBytes := 0

/-- Queue a chunk. -/
def push (codec : DocumentStreamCodec) (chunk : Bytes) (fin : Bool) : DocumentStreamCodec :=
  { codec with
    txSeq := codec.txSeq + 1
    outbound := codec.outbound ++
      [⟨⟨codec.streamId, codec.txSeq, base64.bytesToBase64 chunk, fin⟩, chunk.length⟩] }

/-- The loop of `enqueue`; it runs at most once for every byte. -/
def enqueueLoop (codec : DocumentStreamCodec) : Nat → Bytes → DocumentStreamCodec
  | 0, _ => codec
  | fuel + 1, rest =>
      if rest.isEmpty then codec
      else
        let left := rest.drop codec.chunkBytes
        (codec.push base64 (rest.take codec.chunkBytes) left.isEmpty).enqueueLoop fuel left

def enqueue (codec : DocumentStreamCodec) (bytes : Bytes) : DocumentStreamCodec :=
  if bytes.length = 0 then
    { codec with
      txSeq := codec.txSeq + 1
      outbound := codec.outbound ++ [⟨⟨codec.streamId, codec.txSeq, [], true⟩, 0⟩] }
  else codec.enqueueLoop base64 bytes.length bytes

/-- The loop of `pullSendable`: the frames it releases, the queue it leaves and the
bytes that wait for their acknowledgement. -/
def pullLoop (windowBytes : Int) : List OutboundFrame → Nat → Table Nat Nat →
    List TunnelWebSocketDataEnvelope × List OutboundFrame × Nat × Table Nat Nat
  | [], unacked, unackedBySeq => ([], [], unacked, unackedBySeq)
  | next :: queue, unacked, unackedBySeq =>
      if 0 < unacked ∧ windowBytes < unacked + next.bytes then
        ([], next :: queue, unacked, unackedBySeq)
      else
        let pulled := pullLoop windowBytes queue (unacked + next.bytes)
          (if 0 < next.bytes then unackedBySeq.set next.frame.seq next.bytes else unackedBySeq)
        (next.frame :: pulled.1, pulled.2)

def pullSendable (codec : DocumentStreamCodec) :
    DocumentStreamCodec × List TunnelWebSocketDataEnvelope :=
  match pullLoop codec.windowBytes codec.outbound codec.unacked codec.unackedBySeq with
  | (out, outbound, unacked, unackedBySeq) =>
      ({ codec with outbound := outbound, unacked := unacked, unackedBySeq := unackedBySeq }, out)

def hasPendingOutbound (codec : DocumentStreamCodec) : Bool := 0 < codec.outbound.length

def ingest (codec : DocumentStreamCodec) (frame : TunnelWebSocketDataEnvelope) :
    DocumentStreamCodec × Except IngestError (Option Bytes) :=
  match base64.base64ToBytes frame.bytesB64 with
  | .error text => (codec, .error (.invalidCharacter text))
  | .ok chunk =>
      if codec.messageByteLimit < codec.inboundBytes + chunk.length then
        ({ codec with inbound := [], inboundBytes := 0 },
          .error (.range ⟨codec.streamId, codec.messageByteLimit⟩))
      else
        let inbound := codec.inbound ++ [chunk]
        let inboundBytes := codec.inboundBytes + chunk.length
        if frame.fin then
          ({ codec with inbound := [], inboundBytes := 0 },
            .ok (some (concatBytes inbound inboundBytes)))
        else ({ codec with inbound := inbound, inboundBytes := inboundBytes }, .ok none)

def onAck (codec : DocumentStreamCodec) (seq : Nat) : DocumentStreamCodec :=
  match codec.unackedBySeq.get seq with
  | none => codec
  | some bytes =>
      { codec with
        unackedBySeq := codec.unackedBySeq.delete seq
        unacked := codec.unacked - bytes }

/-- Feed frames to a codec, up to the first error. -/
def ingestAll (codec : DocumentStreamCodec) :
    List TunnelWebSocketDataEnvelope → Except IngestError (DocumentStreamCodec × List Bytes)
  | [] => .ok (codec, [])
  | frame :: rest =>
      match codec.ingest base64 frame with
      | (_, .error error) => .error error
      | (next, .ok message) =>
          (next.ingestAll rest).map fun fed => (fed.1, message.toList ++ fed.2)

/-- The part of a message a frame carries. -/
def piece (frame : TunnelWebSocketDataEnvelope) : Piece UInt8 :=
  ⟨base64.bytesOf frame.bytesB64, frame.fin⟩

/-- The parts of the messages that are queued. -/
def queued (codec : DocumentStreamCodec) : List (Piece UInt8) :=
  codec.outbound.map fun next => piece base64 next.frame

/-- The options a codec is made with. -/
def options (codec : DocumentStreamCodec) : JsString × Nat × Int × Nat :=
  (codec.streamId, codec.chunkBytes, codec.windowBytes, codec.messageByteLimit)

theorem queued_push (codec : DocumentStreamCodec) (chunk : Bytes) (fin : Bool) :
    (codec.push base64 chunk fin).queued base64 = codec.queued base64 ++ [⟨chunk, fin⟩] := by
  unfold queued push piece
  rw [List.map_append, List.map_singleton, base64.bytesOf_bytesToBase64]

theorem enqueueLoop_spec {fuel : Nat} {codec : DocumentStreamCodec} {rest : Bytes}
    (positive : 0 < codec.chunkBytes) (some : rest ≠ []) (fueled : rest.length ≤ fuel) :
    (codec.enqueueLoop base64 fuel rest).queued base64 =
        codec.queued base64 ++ Piece.cut codec.chunkBytes rest ∧
      (codec.enqueueLoop base64 fuel rest).options = codec.options := by
  suffices general : ∀ enough, rest.length < enough →
      (codec.enqueueLoop base64 fuel rest).queued base64 =
          codec.queued base64 ++ Piece.cutLoop codec.chunkBytes enough rest ∧
        (codec.enqueueLoop base64 fuel rest).options = codec.options from
    general _ (Nat.lt_succ_self _)
  induction fuel generalizing codec rest with
  | zero => exact absurd (List.length_eq_zero_iff.mp (Nat.le_zero.mp fueled)) some
  | succ fuel ih =>
      intro enough bounded
      obtain ⟨enough, rfl⟩ := Nat.exists_eq_succ_of_ne_zero (Nat.ne_zero_of_lt bounded)
      have length : 0 < rest.length := List.length_pos_iff.mpr some
      unfold enqueueLoop Piece.cutLoop
      rw [if_neg fun empty => some (List.isEmpty_iff.mp empty)]
      dsimp only
      by_cases last : rest.length ≤ codec.chunkBytes
      · have none : rest.drop codec.chunkBytes = [] := List.drop_eq_nil_of_le last
        have whole : rest.take codec.chunkBytes = rest := List.take_of_length_le last
        have stop : ∀ pushed : DocumentStreamCodec,
            pushed.enqueueLoop base64 fuel [] = pushed := by
          intro pushed
          cases fuel <;> rfl
        rw [if_pos last, none, whole, stop, queued_push]
        exact ⟨rfl, rfl⟩
      · have left : rest.drop codec.chunkBytes ≠ [] := by
          rw [← List.length_pos_iff, List.length_drop]
          omega
        have more : (rest.drop codec.chunkBytes).isEmpty = false :=
          Bool.eq_false_iff.mpr fun empty => left (List.isEmpty_iff.mp empty)
        obtain ⟨pieces, options⟩ := @ih
          (codec.push base64 (rest.take codec.chunkBytes) false) (rest.drop codec.chunkBytes)
          positive left (by rw [List.length_drop]; omega) enough (by
            rw [List.length_drop]
            omega)
        rw [if_neg last, more, pieces, options, queued_push, List.append_assoc]
        exact ⟨rfl, rfl⟩

/-- **Queueing.** A message is queued as its pieces. -/
theorem enqueue_spec {codec : DocumentStreamCodec} (positive : 0 < codec.chunkBytes)
    (bytes : Bytes) :
    (codec.enqueue base64 bytes).queued base64 =
        codec.queued base64 ++ Piece.cut codec.chunkBytes bytes ∧
      (codec.enqueue base64 bytes).options = codec.options := by
  unfold enqueue
  by_cases empty : bytes.length = 0
  · rw [if_pos empty]
    obtain rfl := List.length_eq_zero_iff.mp empty
    refine ⟨?_, rfl⟩
    have decoded : base64.bytesOf [] = [] := by
      have coded := base64.bytesOf_bytesToBase64 []
      rwa [base64.bytesToBase64_nil] at coded
    simp only [queued, piece, List.map_append, List.map_cons, List.map_nil, decoded]
    rfl
  · rw [if_neg empty]
    exact enqueueLoop_spec base64 positive (fun none => empty (List.length_eq_zero_iff.mpr none))
      (Nat.le_refl _)

theorem pullLoop_spec (windowBytes : Int) (queue : List OutboundFrame) (unacked : Nat)
    (unackedBySeq : Table Nat Nat) :
    (pullLoop windowBytes queue unacked unackedBySeq).1 ++
        (pullLoop windowBytes queue unacked unackedBySeq).2.1.map OutboundFrame.frame =
      queue.map OutboundFrame.frame := by
  induction queue generalizing unacked unackedBySeq with
  | nil => rfl
  | cons next queue ih =>
      unfold pullLoop
      split
      · rfl
      · rw [List.map_cons, ← ih]
        rfl

/-- **Pulling.** The released frames are the front of the queue. -/
theorem pullSendable_spec (codec : DocumentStreamCodec) :
    codec.pullSendable.2.map (piece base64) ++ codec.pullSendable.1.queued base64 =
        codec.queued base64 ∧ codec.pullSendable.1.options = codec.options := by
  have pulled := pullLoop_spec codec.windowBytes codec.outbound codec.unacked codec.unackedBySeq
  refine ⟨?_, rfl⟩
  have same := congrArg (List.map (piece base64)) pulled
  rw [List.map_append, List.map_map, List.map_map] at same
  exact same

/-- Every queued frame is as given. -/
def Queues (holds : TunnelWebSocketDataEnvelope → Prop) (codec : DocumentStreamCodec) : Prop :=
  ∀ next ∈ codec.outbound, holds next.frame

section Queues

variable {holds : TunnelWebSocketDataEnvelope → Prop} {codec : DocumentStreamCodec}

theorem queues_enqueueLoop {fuel : Nat} (queues : codec.Queues holds)
    (made : ∀ seq chunk fin, holds ⟨codec.streamId, seq, base64.bytesToBase64 chunk, fin⟩)
    (rest : Bytes) : (codec.enqueueLoop base64 fuel rest).Queues holds := by
  induction fuel generalizing codec rest with
  | zero => exact queues
  | succ fuel ih =>
      unfold enqueueLoop
      split
      · exact queues
      · refine @ih (codec.push base64 (rest.take codec.chunkBytes)
          (rest.drop codec.chunkBytes).isEmpty) ?_ made _
        intro next member
        rcases List.mem_append.mp member with old | new
        · exact queues next old
        · rw [List.mem_singleton.mp new]
          exact made _ _ _

/-- What is queued of a message are frames of the codec's own making. -/
theorem queues_enqueue (queues : codec.Queues holds)
    (made : ∀ seq chunk fin, holds ⟨codec.streamId, seq, base64.bytesToBase64 chunk, fin⟩)
    (bytes : Bytes) : (codec.enqueue base64 bytes).Queues holds := by
  unfold enqueue
  split
  · intro next member
    rcases List.mem_append.mp member with old | new
    · exact queues next old
    · have own := made codec.txSeq [] true
      rw [base64.bytesToBase64_nil] at own
      rw [List.mem_singleton.mp new]
      exact own
  · exact queues_enqueueLoop base64 queues made bytes

theorem queues_pullSendable (queues : codec.Queues holds) :
    codec.pullSendable.1.Queues holds ∧ ∀ frame ∈ codec.pullSendable.2, holds frame := by
  have pulled := pullLoop_spec codec.windowBytes codec.outbound codec.unacked codec.unackedBySeq
  have all : ∀ frame ∈ codec.outbound.map OutboundFrame.frame, holds frame := by
    intro frame member
    obtain ⟨next, queued, rfl⟩ := List.mem_map.mp member
    exact queues next queued
  rw [← pulled] at all
  refine ⟨?_, ?_⟩
  · intro next member
    exact all _ (List.mem_append_right _ (List.mem_map_of_mem member))
  · intro frame member
    exact all _ (List.mem_append_left _ member)

theorem queues_onAck (queues : codec.Queues holds) (seq : Nat) :
    (codec.onAck seq).Queues holds := by
  unfold onAck
  split <;> exact queues

end Queues

/-- A frame that a codec has made is readable. -/
theorem readable_made (streamId : JsString) (seq : Nat) (chunk : Bytes) (fin : Bool) :
    (TunnelWebSocketDataEnvelope.mk streamId seq (base64.bytesToBase64 chunk) fin).readable
      base64 = true := by
  rw [TunnelWebSocketDataEnvelope.readable, base64.base64ToBytes_bytesToBase64]
  rfl

theorem onAck_spec (codec : DocumentStreamCodec) (seq : Nat) :
    (codec.onAck seq).queued base64 = codec.queued base64 ∧
      (codec.onAck seq).options = codec.options := by
  unfold onAck
  split <;> exact ⟨rfl, rfl⟩

/-- The number of the bytes received is kept. -/
def Counted (codec : DocumentStreamCodec) : Prop :=
  codec.inboundBytes = codec.inbound.flatten.length

/-- The message a codec is receiving. -/
def joiner (codec : DocumentStreamCodec) : Joiner UInt8 :=
  ⟨codec.messageByteLimit, codec.inbound.flatten⟩

theorem base64ToBytes_of_readable {frame : TunnelWebSocketDataEnvelope}
    (readable : frame.readable base64 = true) :
    base64.base64ToBytes frame.bytesB64 = .ok (base64.bytesOf frame.bytesB64) := by
  unfold TunnelWebSocketDataEnvelope.readable at readable
  unfold Base64.bytesOf
  cases decoded : base64.base64ToBytes frame.bytesB64 with
  | ok bytes => rfl
  | error text =>
      rw [decoded] at readable
      cases readable

/-- A frame that is not readable is refused, and what was received stays. -/
theorem ingest_unreadable {frame : TunnelWebSocketDataEnvelope}
    (unreadable : frame.readable base64 = false) (codec : DocumentStreamCodec) :
    ∃ text, codec.ingest base64 frame = (codec, .error (.invalidCharacter text)) := by
  unfold TunnelWebSocketDataEnvelope.readable at unreadable
  unfold ingest
  cases decoded : base64.base64ToBytes frame.bytesB64 with
  | ok bytes =>
      rw [decoded] at unreadable
      cases unreadable
  | error text => exact ⟨text, rfl⟩

/-- **Receiving.** A codec takes a readable frame as its joiner takes the piece. -/
theorem ingest_spec {codec : DocumentStreamCodec} (counted : codec.Counted)
    {frame : TunnelWebSocketDataEnvelope} (readable : frame.readable base64 = true) :
    (codec.ingest base64 frame).1.Counted ∧
      match codec.joiner.accept (piece base64 frame) with
      | none => (codec.ingest base64 frame).2 =
          .error (.range ⟨codec.streamId, codec.messageByteLimit⟩)
      | some (joined, message) => (codec.ingest base64 frame).2 = .ok message ∧
          (codec.ingest base64 frame).1.joiner = joined := by
  unfold Counted at counted
  unfold ingest Joiner.accept joiner piece
  rw [base64ToBytes_of_readable base64 readable]
  dsimp only
  rw [← counted]
  by_cases large : codec.messageByteLimit <
      codec.inboundBytes + (base64.bytesOf frame.bytesB64).length
  · rw [if_pos large, if_pos large]
    exact ⟨rfl, rfl⟩
  · rw [if_neg large, if_neg large]
    have length : (codec.inbound ++ [base64.bytesOf frame.bytesB64]).flatten.length =
        codec.inboundBytes + (base64.bytesOf frame.bytesB64).length := by
      rw [List.flatten_append, List.length_append, counted]
      simp
    have joined : (codec.inbound ++ [base64.bytesOf frame.bytesB64]).flatten =
        codec.inbound.flatten ++ base64.bytesOf frame.bytesB64 := by
      simp
    by_cases fin : frame.fin = true
    · rw [if_pos fin, if_pos fin]
      refine ⟨rfl, ?_, rfl⟩
      rw [concatBytes, length, Nat.sub_self, List.replicate_zero, List.append_nil, joined]
    · rw [if_neg fin, if_neg fin]
      refine ⟨length.symm, rfl, ?_⟩
      rw [joined]

/-- A codec that is fed readable frames returns what its joiner joins of their pieces. -/
theorem ingestAll_spec {frames : List TunnelWebSocketDataEnvelope}
    {codec : DocumentStreamCodec} (counted : codec.Counted)
    (readable : ∀ frame ∈ frames, frame.readable base64 = true) {joined : Joiner UInt8}
    {messages : List Bytes}
    (ran : codec.joiner.run (frames.map (piece base64)) = some (joined, messages)) :
    ∃ next, codec.ingestAll base64 frames = .ok (next, messages) ∧ next.Counted ∧
      next.joiner = joined := by
  induction frames generalizing codec messages with
  | nil =>
      cases ran
      exact ⟨codec, rfl, counted, rfl⟩
  | cons frame rest ih =>
      obtain ⟨own, others⟩ := List.forall_mem_cons.mp readable
      obtain ⟨accepted, taken, more⟩ := Option.bind_eq_some_iff.mp ran
      obtain ⟨after, rests, same⟩ := Option.map_eq_some_iff.mp more
      cases same
      obtain ⟨nextCounted, received⟩ := ingest_spec base64 counted own
      rw [taken] at received
      obtain ⟨message, state⟩ := received
      rw [← state] at rests
      obtain ⟨next, fed, kept⟩ := ih nextCounted others rests
      refine ⟨next, ?_, kept⟩
      unfold ingestAll
      have split : codec.ingest base64 frame = ((codec.ingest base64 frame).1, .ok accepted.2) :=
        Prod.ext rfl message
      rw [split]
      dsimp only
      rw [fed]
      rfl

end DocumentStreamCodec

/-- A codec that sends, with the messages given to it and the frames it has released. -/
structure StreamSender where
  codec : DocumentStreamCodec
  enqueued : List Bytes
  pulled : List TunnelWebSocketDataEnvelope

inductive StreamLabel where
  | enqueue (bytes : Bytes)
  | pullSendable
  | onAck (seq : Nat)

/-- The machine of a sending codec. -/
def streamMachine (base64 : Base64) : Machine StreamSender StreamLabel where
  step sender label :=
    match label with
    | .enqueue bytes =>
        some { sender with
          codec := sender.codec.enqueue base64 bytes
          enqueued := sender.enqueued ++ [bytes] }
    | .pullSendable =>
        some { sender with
          codec := sender.codec.pullSendable.1
          pulled := sender.pulled ++ sender.codec.pullSendable.2 }
    | .onAck seq => some { sender with codec := sender.codec.onAck seq }

/-- A message that is given to the codec is not too large for its receiver. -/
def StreamLabel.Fits (messageByteLimit : Nat) : StreamLabel → Prop
  | .enqueue bytes => bytes.length ≤ messageByteLimit
  | _ => True

instance StreamLabel.decidableFits (messageByteLimit : Nat) (label : StreamLabel) :
    Decidable (label.Fits messageByteLimit) := by
  unfold StreamLabel.Fits
  split <;> infer_instance

/-- The frames released and queued are the pieces of the messages, and readable. -/
structure StreamSender.Cut (base64 : Base64) (chunkBytes messageByteLimit : Nat)
    (sender : StreamSender) : Prop where
  chunk : sender.codec.chunkBytes = chunkBytes
  fits : ∀ message ∈ sender.enqueued, message.length ≤ messageByteLimit
  pieces : sender.pulled.map (DocumentStreamCodec.piece base64) ++ sender.codec.queued base64 =
    sender.enqueued.flatMap (Piece.cut chunkBytes)
  readable : ∀ frame ∈ sender.pulled, frame.readable base64 = true
  coded : sender.codec.Queues fun frame => frame.readable base64 = true

theorem StreamSender.Cut.step {base64 : Base64} {chunkBytes messageByteLimit : Nat}
    {sender next : StreamSender} {label : StreamLabel} (positive : 1 ≤ chunkBytes)
    (fits : label.Fits messageByteLimit)
    (stepped : (streamMachine base64).step sender label = some next)
    (cut : sender.Cut base64 chunkBytes messageByteLimit) :
    next.Cut base64 chunkBytes messageByteLimit := by
  cases label with
  | enqueue bytes =>
      obtain rfl := Option.some.inj stepped
      obtain ⟨queued, options⟩ := DocumentStreamCodec.enqueue_spec base64
        (cut.chunk ▸ positive : 0 < sender.codec.chunkBytes) bytes
      refine ⟨(congrArg (fun options => options.2.1) options).trans cut.chunk, ?_, ?_,
        cut.readable, DocumentStreamCodec.queues_enqueue base64 cut.coded
          (DocumentStreamCodec.readable_made base64 _) bytes⟩
      · intro message member
        rcases List.mem_append.mp member with old | new
        · exact cut.fits message old
        · rw [List.mem_singleton.mp new]
          exact fits
      · dsimp only
        rw [queued, ← List.append_assoc, cut.pieces, cut.chunk, List.flatMap_append,
          List.flatMap_singleton]
  | pullSendable =>
      obtain rfl := Option.some.inj stepped
      obtain ⟨queued, options⟩ := DocumentStreamCodec.pullSendable_spec base64 sender.codec
      obtain ⟨coded, released⟩ := DocumentStreamCodec.queues_pullSendable cut.coded
      refine ⟨(congrArg (fun options => options.2.1) options).trans cut.chunk, cut.fits, ?_, ?_,
        coded⟩
      · dsimp only
        rw [List.map_append, List.append_assoc, queued]
        exact cut.pieces
      · exact List.forall_mem_append.mpr ⟨cut.readable, released⟩
  | onAck seq =>
      obtain rfl := Option.some.inj stepped
      obtain ⟨queued, options⟩ := DocumentStreamCodec.onAck_spec base64 sender.codec seq
      refine ⟨(congrArg (fun options => options.2.1) options).trans cut.chunk, cut.fits, ?_,
        cut.readable, DocumentStreamCodec.queues_onAck cut.coded seq⟩
      dsimp only
      rw [queued]
      exact cut.pieces

/-- **The stream round trip.** Whatever a codec is given, pulls and hears of
acknowledgements, a second codec that is fed the pulled frames returns without an error as
many of the messages as have been pulled to their end, and all of them when nothing is
queued any more. -/
theorem document_stream_round_trip {base64 : Base64} {streamId otherId : JsString}
    {chunkBytes otherChunkBytes messageByteLimit : Nat} {windowBytes otherWindowBytes : Int}
    {labels : List StreamLabel} {target : StreamSender} (positive : 1 ≤ chunkBytes)
    (run : (streamMachine base64).Run (fun _ label => label.Fits messageByteLimit)
      ⟨.new streamId chunkBytes windowBytes messageByteLimit, [], []⟩ labels target) :
    (∃ next, (DocumentStreamCodec.new otherId otherChunkBytes otherWindowBytes
        messageByteLimit).ingestAll base64 target.pulled =
      .ok (next, target.enqueued.take
        (target.pulled.countP TunnelWebSocketDataEnvelope.fin))) ∧
    (target.codec.hasPendingOutbound = false →
      target.pulled.countP TunnelWebSocketDataEnvelope.fin = target.enqueued.length) := by
  have start : StreamSender.Cut base64 chunkBytes messageByteLimit
      ⟨.new streamId chunkBytes windowBytes messageByteLimit, [], []⟩ :=
    ⟨rfl, nofun, rfl, nofun, nofun⟩
  have cut : target.Cut base64 chunkBytes messageByteLimit :=
    run.invariant (fun _ _ _ fits stepped => StreamSender.Cut.step positive fits stepped) start
  have finals : (target.pulled.map (DocumentStreamCodec.piece base64)).countP Piece.final =
      target.pulled.countP TunnelWebSocketDataEnvelope.fin := List.countP_map
  constructor
  · obtain ⟨joined, ran⟩ := Joiner.run_front positive cut.fits cut.pieces
    rw [finals] at ran
    obtain ⟨next, fed, _⟩ := DocumentStreamCodec.ingestAll_spec base64
      (show (DocumentStreamCodec.new otherId otherChunkBytes otherWindowBytes
        messageByteLimit).Counted from rfl) cut.readable ran
    exact ⟨next, fed⟩
  · intro drained
    have empty : target.codec.outbound = [] := by
      rw [← List.length_eq_zero_iff]
      exact Nat.eq_zero_of_not_pos (of_decide_eq_false drained)
    have whole := Joiner.length_run (Joiner.run_pieces positive cut.fits)
    rw [← cut.pieces, DocumentStreamCodec.queued, empty, List.map_nil, List.append_nil,
      finals] at whole
    exact whole.symm

/-- Three bytes, an empty message and four bytes through a window of three bytes, with
acknowledgements that come twice and for no frame. -/
theorem document_stream_round_trip_window :
    ∃ target, (streamMachine platformBase64).Run (fun _ label => label.Fits 4)
        ⟨.new [115] 2 3 4, [], []⟩
        [.enqueue [1, 2, 3], .enqueue [], .pullSendable, .onAck 0, .onAck 0, .onAck 9,
          .enqueue [4, 5, 6, 7], .pullSendable, .onAck 1, .pullSendable] target ∧
      target.pulled.map TunnelWebSocketDataEnvelope.seq = [0, 1, 2, 3] ∧
      target.pulled.countP TunnelWebSocketDataEnvelope.fin = 2 ∧
      ∃ next, (DocumentStreamCodec.new [116] 9 9 4).ingestAll platformBase64 target.pulled =
        .ok (next, [[1, 2, 3], []]) := by
  obtain ⟨target, run, seen⟩ : ∃ target,
      (streamMachine platformBase64).Run (fun _ label => label.Fits 4)
        ⟨.new [115] 2 3 4, [], []⟩
        [.enqueue [1, 2, 3], .enqueue [], .pullSendable, .onAck 0, .onAck 0, .onAck 9,
          .enqueue [4, 5, 6, 7], .pullSendable, .onAck 1, .pullSendable] target ∧
      (target.pulled.map TunnelWebSocketDataEnvelope.seq,
        target.pulled.countP TunnelWebSocketDataEnvelope.fin, target.enqueued) =
        ([0, 1, 2, 3], 2, [[1, 2, 3], [], [4, 5, 6, 7]]) :=
    Machine.evaluate_view (by decide +kernel)
  obtain ⟨seqs, rest⟩ := Prod.mk.inj seen
  obtain ⟨finals, enqueued⟩ := Prod.mk.inj rest
  obtain ⟨next, fed⟩ := (@document_stream_round_trip platformBase64 [115] [116] 2 9 4 3 9 _ target
    (by decide) run).1
  rw [finals, enqueued] at fed
  exact ⟨target, run, seqs, finals, next, fed⟩

end Kb1Daemon
