import Kb1Daemon.Tunnel.Codec
import Mathlib.Logic.Function.Basic

/-! # The stream multiplexer

The tunnel client joins every document stream of the relay to a loopback socket. The
handlers of the loopback's events keep the stream they were made for, also after it has
been removed and its id given to another stream. As long as the loopback of a removed
stream neither opens nor sends, nor closes while its id is in use again, closed streams
stay silent (`streams_stay_silent`); a message that arrives from the loopback after the
stream was closed is sent on (`removed_stream_sends`).
-/

namespace Kb1Daemon

inductive ReadyState where
  | connecting
  | opened
  | closing
  | closed
  deriving DecidableEq, Repr

/-- A loopback socket: its state, the messages it was given and the calls to close it. -/
structure MuxLoopbackSocket where
  readyState : ReadyState
  received : List Bytes
  closeCalls : List (Nat × JsString)
  deriving DecidableEq, Repr

structure MuxStream where
  codec : DocumentStreamCodec
  loopback : MuxLoopbackSocket
  loopbackOpen : Bool
  paused : Bool
  pendingInbound : List Bytes
  pendingInboundBytes : Nat

/-- What the multiplexer sends to the relay. -/
inductive MuxMessage where
  | data (frame : TunnelWebSocketDataEnvelope)
  | dataAck (streamId : JsString) (seq : Nat)
  | close (streamId : JsString) (code : Nat) (reason : JsString)
  deriving DecidableEq, Repr

def MuxMessage.streamId : MuxMessage → JsString
  | .data frame => frame.streamId
  | .dataAck streamId _ | .close streamId _ _ => streamId

def tunnelWsFrameByteLimit : Nat := 256 * 1024
def tunnelWsDataChunkBytes : Nat := (tunnelWsFrameByteLimit - 1024) / 4 * 3
def tunnelWsDataWindowBytes : Int := 4 * 1024 * 1024
def tunnelWsDataMessageByteLimit : Nat := 8 * 1024 * 1024

def streamRetrySafe : Nat := 4001
def oversizedWsFrame : Nat := 4004

namespace DocumentStreamCodec

variable (base64 : Base64)

/-- Every queued frame carries the id of the stream. -/
def Framed (codec : DocumentStreamCodec) : Prop :=
  ∀ next ∈ codec.outbound, next.frame.streamId = codec.streamId

theorem streamId_enqueueLoop (codec : DocumentStreamCodec) (fuel : Nat) (rest : Bytes) :
    (codec.enqueueLoop base64 fuel rest).streamId = codec.streamId := by
  induction fuel generalizing codec rest with
  | zero => rfl
  | succ fuel ih =>
      unfold enqueueLoop
      split
      · rfl
      · exact ih _ _

theorem framed_enqueue {codec : DocumentStreamCodec} (framed : codec.Framed) (bytes : Bytes) :
    (codec.enqueue base64 bytes).Framed ∧
      (codec.enqueue base64 bytes).streamId = codec.streamId := by
  have same : (codec.enqueue base64 bytes).streamId = codec.streamId := by
    unfold enqueue
    split
    · rfl
    · exact streamId_enqueueLoop base64 codec _ _
  refine ⟨?_, same⟩
  rw [Framed, same]
  exact @queues_enqueue base64 (fun frame => frame.streamId = codec.streamId) codec framed
    (fun _ _ _ => rfl) bytes

theorem framed_pullSendable {codec : DocumentStreamCodec} (framed : codec.Framed) :
    codec.pullSendable.1.Framed ∧ codec.pullSendable.1.streamId = codec.streamId ∧
      ∀ frame ∈ codec.pullSendable.2, frame.streamId = codec.streamId := by
  obtain ⟨kept, released⟩ :=
    @queues_pullSendable (fun frame => frame.streamId = codec.streamId) codec framed
  exact ⟨kept, rfl, released⟩

theorem framed_onAck {codec : DocumentStreamCodec} (framed : codec.Framed) (seq : Nat) :
    (codec.onAck seq).Framed ∧ (codec.onAck seq).streamId = codec.streamId := by
  unfold onAck
  split <;> exact ⟨framed, rfl⟩

theorem framed_ingest {codec : DocumentStreamCodec} (framed : codec.Framed)
    (frame : TunnelWebSocketDataEnvelope) :
    (codec.ingest base64 frame).1.Framed ∧
      (codec.ingest base64 frame).1.streamId = codec.streamId := by
  unfold ingest
  split
  · exact ⟨framed, rfl⟩
  · dsimp only
    split
    · exact ⟨framed, rfl⟩
    · split <;> exact ⟨framed, rfl⟩

end DocumentStreamCodec

namespace MuxLoopbackSocket

/-- `close`, on an open socket. -/
def close (loopback : MuxLoopbackSocket) (code : Nat) (reason : JsString) : MuxLoopbackSocket :=
  { loopback with
    readyState := .closing
    closeCalls := loopback.closeCalls ++ [(code, reason)] }

/-- The guard around every call of `close`. -/
def closeIfOpen (loopback : MuxLoopbackSocket) (code : Nat) (reason : JsString) :
    MuxLoopbackSocket :=
  if loopback.readyState = .opened then loopback.close code reason else loopback

theorem closeIfOpen_readyState (loopback : MuxLoopbackSocket) (code : Nat) (reason : JsString) :
    (loopback.closeIfOpen code reason).readyState ≠ .opened := by
  unfold closeIfOpen
  split
  · exact nofun
  · assumption

end MuxLoopbackSocket

namespace MuxStream

variable (base64 : Base64)

/-- The stream of an open envelope, before any event of its loopback. -/
def new (streamId : JsString) (chunkBytes : Option Nat) (windowBytes : Option Int) :
    MuxStream where
  codec := .new streamId (chunkBytes.getD tunnelWsDataChunkBytes)
    (windowBytes.getD tunnelWsDataWindowBytes) tunnelWsDataMessageByteLimit
  loopback := ⟨.connecting, [], []⟩
  loopbackOpen := false
  paused := false
  pendingInbound := []
  pendingInboundBytes := 0

/-- Release what fits into the window and pause or resume the loopback. -/
def flushOutbound (stream : MuxStream) : MuxStream × List TunnelWebSocketDataEnvelope :=
  let pulled := stream.codec.pullSendable
  ({ stream with
    codec := pulled.1
    paused := pulled.1.hasPendingOutbound }, pulled.2)

/-- The handler of a message of the loopback. -/
def loopbackMessage (stream : MuxStream) (bytes : Bytes) :
    MuxStream × List TunnelWebSocketDataEnvelope :=
  flushOutbound { stream with codec := stream.codec.enqueue base64 bytes }

/-- The reaction of a stream to an acknowledgement. -/
def dataAck (stream : MuxStream) (seq : Nat) : MuxStream × List TunnelWebSocketDataEnvelope :=
  flushOutbound { stream with codec := stream.codec.onAck seq }

/-- Give messages to the loopback. -/
def writeLoopback (stream : MuxStream) (messages : List Bytes) : MuxStream :=
  { stream with
    loopback := { stream.loopback with received := stream.loopback.received ++ messages } }

/-- The loopback's state changes. -/
def become (stream : MuxStream) (readyState : ReadyState) : MuxStream :=
  { stream with loopback := { stream.loopback with readyState := readyState } }

theorem framed_flushOutbound {stream : MuxStream} (framed : stream.codec.Framed) :
    stream.flushOutbound.1.codec.Framed ∧
      stream.flushOutbound.1.codec.streamId = stream.codec.streamId ∧
      ∀ message ∈ stream.flushOutbound.2.map MuxMessage.data,
        message.streamId = stream.codec.streamId := by
  obtain ⟨kept, same, pulled⟩ := DocumentStreamCodec.framed_pullSendable framed
  refine ⟨kept, same, ?_⟩
  intro message member
  obtain ⟨frame, released, rfl⟩ := List.mem_map.mp member
  exact pulled frame released

end MuxStream

/-- The multiplexer: every stream it has made, and the streams of the ids in use. -/
structure StreamMux where
  chunkBytes : Option Nat
  windowBytes : Option Int
  store : Nat → MuxStream
  fresh : Nat
  streams : Table JsString Nat
  sent : List MuxMessage

inductive MuxLabel where
  | handleOpen (streamId : JsString)
  /-- A frame arrives; a message it completes may be refused by the loopback. -/
  | handleData (frame : TunnelWebSocketDataEnvelope) (delivers : Bool)
  | handleDataAck (streamId : JsString) (seq : Nat)
  | handleClose (streamId reason : JsString)
  | disposeAll (reason : JsString)
  /-- The loopback opens; it takes at most so many of the messages that wait for it. -/
  | loopbackOpened (stream delivers : Nat)
  /-- A message of the loopback; a value of another type has no bytes. -/
  | loopbackMessage (stream : Nat) (data : Option Bytes)
  | loopbackClosed (stream : Nat) (code : Option Nat) (reason : JsString)

namespace StreamMux

variable (base64 : Base64)

/-- A multiplexer without streams. -/
def new (chunkBytes : Option Nat) (windowBytes : Option Int) : StreamMux where
  chunkBytes := chunkBytes
  windowBytes := windowBytes
  store := fun _ => MuxStream.new [] none none
  fresh := 0
  streams := .empty
  sent := []

/-- Put another stream in the place of one. -/
def put (mux : StreamMux) (index : Nat) (stream : MuxStream) : StreamMux :=
  { mux with store := Function.update mux.store index stream }

/-- Hand messages to the control socket. -/
def send (mux : StreamMux) (messages : List MuxMessage) : StreamMux :=
  { mux with sent := mux.sent ++ messages }

def handleOpen (mux : StreamMux) (streamId : JsString) : StreamMux :=
  match mux.streams.get streamId with
  | some _ => mux
  | none =>
      { mux.put mux.fresh (.new streamId mux.chunkBytes mux.windowBytes) with
        fresh := mux.fresh + 1
        streams := mux.streams.set streamId mux.fresh }

def tearDown (mux : StreamMux) (streamId : JsString) (code : Nat) (reason : JsString) :
    StreamMux :=
  match mux.streams.get streamId with
  | none => mux
  | some index =>
      let stream := mux.store index
      let closed :=
        { stream with loopback := stream.loopback.closeIfOpen 1002 reason }
      send { mux.put index closed with streams := mux.streams.delete streamId }
        [.close streamId code reason]

def handleData (mux : StreamMux) (frame : TunnelWebSocketDataEnvelope) (delivers : Bool) :
    StreamMux :=
  match mux.streams.get frame.streamId with
  | none => mux
  | some index =>
      let stream := mux.store index
      match stream.codec.ingest base64 frame with
      | (codec, .error error) =>
          (mux.put index { stream with codec := codec }).tearDown frame.streamId oversizedWsFrame
            error.text
      | (codec, .ok none) =>
          (mux.put index { stream with codec := codec }).send [.dataAck frame.streamId frame.seq]
      | (codec, .ok (some message)) =>
          let ingested := { stream with codec := codec }
          if stream.loopbackOpen then
            if delivers then
              (mux.put index (ingested.writeLoopback [message])).send
                [.dataAck frame.streamId frame.seq]
            else
              (mux.put index ingested).tearDown frame.streamId streamRetrySafe
                (units "loopback delivery failed")
          else if mux.windowBytes.getD tunnelWsDataWindowBytes <
              stream.pendingInboundBytes + message.length then
            (mux.put index ingested).tearDown frame.streamId streamRetrySafe
              (units "pending inbound buffer overflow")
          else
            (mux.put index { ingested with
              pendingInbound := stream.pendingInbound ++ [message]
              pendingInboundBytes := stream.pendingInboundBytes + message.length }).send
              [.dataAck frame.streamId frame.seq]

def handleDataAck (mux : StreamMux) (streamId : JsString) (seq : Nat) : StreamMux :=
  match mux.streams.get streamId with
  | none => mux
  | some index =>
      let flushed := (mux.store index).dataAck seq
      (mux.put index flushed.1).send (flushed.2.map .data)

def handleClose (mux : StreamMux) (streamId reason : JsString) : StreamMux :=
  match mux.streams.get streamId with
  | none => mux
  | some index =>
      let stream := mux.store index
      { mux.put index { stream with loopback := stream.loopback.closeIfOpen 1000 reason } with
        streams := mux.streams.delete streamId }

def disposeAll (mux : StreamMux) (reason : JsString) : StreamMux :=
  { mux with
    store := fun index =>
      if mux.streams.entries.any fun entry => entry.2 = index then
        { mux.store index with
          loopback := (mux.store index).loopback.closeIfOpen 1001 reason }
      else mux.store index
    streams := .empty }

/-- The handler of the loopback's open event. -/
def loopbackOpened (mux : StreamMux) (index delivers : Nat) : StreamMux :=
  let stream := { (mux.store index).become .opened with loopbackOpen := true }
  let streamId := stream.codec.streamId
  let written := stream.writeLoopback (stream.pendingInbound.take delivers)
  if stream.pendingInbound.length ≤ delivers then
    mux.put index { written with pendingInbound := [], pendingInboundBytes := 0 }
  else
    (mux.put index written).tearDown streamId streamRetrySafe (units "loopback delivery failed")

/-- The handler of a message of the loopback. -/
def loopbackMessage (mux : StreamMux) (index : Nat) (data : Option Bytes) : StreamMux :=
  match data with
  | none => mux
  | some bytes =>
      let flushed := (mux.store index).loopbackMessage base64 bytes
      (mux.put index flushed.1).send (flushed.2.map .data)

/-- The handler of the loopback's close event. -/
def loopbackClosed (mux : StreamMux) (index : Nat) (code : Option Nat) (reason : JsString) :
    StreamMux :=
  let stream := (mux.store index).become .closed
  let streamId := stream.codec.streamId
  match mux.streams.get streamId with
  | none => mux.put index stream
  | some _ =>
      send { mux.put index stream with streams := mux.streams.delete streamId }
        [.close streamId (code.getD streamRetrySafe) reason]

end StreamMux

/-- The machine of the multiplexer. A socket opens once; its other events come in any
order. -/
def muxMachine (base64 : Base64) : Machine StreamMux MuxLabel where
  step mux label :=
    match label with
    | .handleOpen streamId => some (mux.handleOpen streamId)
    | .handleData frame delivers => some (mux.handleData base64 frame delivers)
    | .handleDataAck streamId seq => some (mux.handleDataAck streamId seq)
    | .handleClose streamId reason => some (mux.handleClose streamId reason)
    | .disposeAll reason => some (mux.disposeAll reason)
    | .loopbackOpened index delivers =>
        if index < mux.fresh ∧ (mux.store index).loopback.readyState = .connecting then
          some (mux.loopbackOpened index delivers)
        else none
    | .loopbackMessage index data =>
        if index < mux.fresh then some (mux.loopbackMessage base64 index data) else none
    | .loopbackClosed index code reason =>
        if index < mux.fresh then some (mux.loopbackClosed index code reason) else none

namespace StreamMux

/-- The stream was made and is not the one of its id. -/
def Removed (mux : StreamMux) (index : Nat) : Prop :=
  index < mux.fresh ∧ mux.streams.get (mux.store index).codec.streamId ≠ some index

instance decidableRemoved (mux : StreamMux) (index : Nat) : Decidable (mux.Removed index) := by
  unfold Removed
  infer_instance

end StreamMux

/-- The stream whose loopback the event comes from. -/
def MuxLabel.loopback : MuxLabel → Option Nat
  | .loopbackOpened index _ | .loopbackMessage index _ | .loopbackClosed index _ _ => some index
  | _ => none

/-- The loopback of a removed stream opens, sends bytes, or closes while the id of the
stream is in use again. -/
def StreamMux.Haunts (mux : StreamMux) : MuxLabel → Prop
  | .loopbackOpened index _ => mux.Removed index
  | .loopbackMessage index data => mux.Removed index ∧ data.isSome = true
  | .loopbackClosed index _ _ => mux.Removed index ∧
      (mux.streams.get (mux.store index).codec.streamId).isSome = true
  | _ => False

instance StreamMux.decidableHaunts (mux : StreamMux) (label : MuxLabel) :
    Decidable (mux.Haunts label) := by
  unfold StreamMux.Haunts
  split <;> infer_instance

/-- **Silence.** In the step, frames are sent only for streams that were there before it;
an event of the loopback of a removed stream sends and removes nothing and changes no
other stream; and afterwards no loopback of a removed stream is open. -/
structure StreamMux.Silent (mux : StreamMux) (label : MuxLabel) (next : StreamMux) : Prop where
  registered : ∀ message ∈ next.sent.drop mux.sent.length,
    (mux.streams.get message.streamId).isSome = true
  apart : ∀ index, label.loopback = some index → mux.Removed index →
    next.streams = mux.streams ∧ next.sent = mux.sent ∧
      ∀ other, other ≠ index → next.store other = mux.store other
  closed : ∀ index, next.Removed index → (next.store index).loopback.readyState ≠ .opened

namespace StreamMux

variable {base64 : Base64}

/-- The streams have the ids they are kept under, their frames carry these ids, and no
loopback of a removed stream is open. -/
structure Routed (mux : StreamMux) : Prop where
  unique : mux.streams.Unique
  named : ∀ streamId index, mux.streams.Holds streamId index →
    index < mux.fresh ∧ (mux.store index).codec.streamId = streamId
  framed : ∀ index, (mux.store index).codec.Framed
  closed : ∀ index, mux.Removed index → (mux.store index).loopback.readyState ≠ .opened

theorem removed_iff {mux : StreamMux} (unique : mux.streams.Unique) {index : Nat} :
    mux.Removed index ↔
      index < mux.fresh ∧ ¬ mux.streams.Holds (mux.store index).codec.streamId index := by
  unfold Removed
  constructor
  · rintro ⟨made, other⟩
    exact ⟨made, fun held => other (unique.get_eq held)⟩
  · rintro ⟨made, missing⟩
    exact ⟨made, fun found => missing (Table.holds_of_get found)⟩

theorem loopbackClosed_unused {mux : StreamMux} {index : Nat}
    (unused : mux.streams.get (mux.store index).codec.streamId = none) (code : Option Nat)
    (reason : JsString) :
    mux.loopbackClosed index code reason = mux.put index ((mux.store index).become .closed) := by
  unfold loopbackClosed
  dsimp only
  rw [show ((mux.store index).become .closed).codec.streamId =
    (mux.store index).codec.streamId from rfl, unused]

theorem loopbackClosed_used {mux : StreamMux} {index other : Nat}
    (used : mux.streams.get (mux.store index).codec.streamId = some other) (code : Option Nat)
    (reason : JsString) :
    mux.loopbackClosed index code reason =
      send { mux.put index ((mux.store index).become .closed) with
        streams := mux.streams.delete (mux.store index).codec.streamId }
        [.close (mux.store index).codec.streamId (code.getD streamRetrySafe) reason] := by
  unfold loopbackClosed
  dsimp only
  rw [show ((mux.store index).become .closed).codec.streamId =
    (mux.store index).codec.streamId from rfl, used]

/-- What a step does when no removed stream comes back. -/
inductive Moves (mux : StreamMux) : StreamMux → Prop where
  | still : Moves mux mux
  | make (streamId : JsString) : mux.streams.get streamId = none →
      Moves mux (mux.handleOpen streamId)
  | serve {streamId : JsString} {index : Nat} (stream : MuxStream) (messages : List MuxMessage) :
      mux.streams.get streamId = some index → stream.codec.streamId = streamId →
      stream.codec.Framed → (∀ message ∈ messages, message.streamId = streamId) →
      Moves mux ((mux.put index stream).send messages)
  | remove {streamId : JsString} {index : Nat} (stream : MuxStream)
      (messages : List MuxMessage) :
      mux.streams.get streamId = some index → stream.codec.streamId = streamId →
      stream.codec.Framed → stream.loopback.readyState ≠ .opened →
      (∀ message ∈ messages, message.streamId = streamId) →
      Moves mux (send { mux.put index stream with streams := mux.streams.delete streamId }
        messages)
  | dispose (reason : JsString) : Moves mux (mux.disposeAll reason)
  | fade (index : Nat) : mux.Removed index →
      Moves mux (mux.put index ((mux.store index).become .closed))

/-- A tear-down is a move of the streams. -/
theorem moves_tearDown {mux : StreamMux} {streamId : JsString} {index : Nat}
    (found : mux.streams.get streamId = some index) {stream : MuxStream}
    (same : stream.codec.streamId = streamId) (framed : stream.codec.Framed) (code : Nat)
    (reason : JsString) :
    Moves mux ((mux.put index stream).tearDown streamId code reason) := by
  have torn : (mux.put index stream).tearDown streamId code reason =
      send { mux.put index { stream with loopback := stream.loopback.closeIfOpen 1002 reason } with
        streams := mux.streams.delete streamId } [.close streamId code reason] := by
    unfold tearDown
    rw [show (mux.put index stream).streams.get streamId = some index from found]
    simp only [put, Function.update_self, Function.update_idem]
  rw [torn]
  refine .remove _ _ found same framed (MuxLoopbackSocket.closeIfOpen_readyState _ _ _) ?_
  intro message member
  rw [List.mem_singleton.mp member]
  rfl

/-- A frame is a move of the streams. -/
theorem moves_handleData {mux : StreamMux} (routed : mux.Routed)
    (frame : TunnelWebSocketDataEnvelope) (delivers : Bool) :
    Moves mux (mux.handleData base64 frame delivers) := by
  have ack : ∀ message ∈ [MuxMessage.dataAck frame.streamId frame.seq],
      message.streamId = frame.streamId := by
    intro message member
    rw [List.mem_singleton.mp member]
    rfl
  unfold handleData
  split
  · exact .still
  · rename_i index found
    have name := (routed.named _ _ (Table.holds_of_get found)).2
    obtain ⟨framed, same⟩ := DocumentStreamCodec.framed_ingest base64 (routed.framed index) frame
    dsimp only
    split
    all_goals
      rename_i codec _ ingested
      rw [ingested] at framed same
    · exact moves_tearDown found (same.trans name) framed _ _
    · exact .serve _ _ found (same.trans name) framed ack
    · split
      · split
        · exact .serve _ _ found (same.trans name) framed ack
        · exact moves_tearDown found (same.trans name) framed _ _
      · split
        · exact moves_tearDown found (same.trans name) framed _ _
        · exact .serve _ _ found (same.trans name) framed ack

/-- **Steps.** A step in which no removed stream comes back is one of these. -/
theorem moves_step {mux next : StreamMux} (routed : mux.Routed) {label : MuxLabel}
    (allowed : ¬ mux.Haunts label) (stepped : (muxMachine base64).step mux label = some next) :
    Moves mux next := by
  have found : ∀ {index : Nat}, index < mux.fresh → ¬ mux.Removed index →
      mux.streams.get (mux.store index).codec.streamId = some index :=
    fun made kept => not_not.mp fun other => kept ⟨made, other⟩
  cases label with
  | handleOpen streamId =>
      obtain rfl := Option.some.inj stepped
      cases used : mux.streams.get streamId with
      | none => exact .make streamId used
      | some index =>
          have same : mux.handleOpen streamId = mux := by
            unfold handleOpen
            rw [used]
          rw [same]
          exact .still
  | handleData frame delivers =>
      obtain rfl := Option.some.inj stepped
      exact moves_handleData routed frame delivers
  | handleDataAck streamId seq =>
      obtain rfl := Option.some.inj stepped
      unfold handleDataAck
      split
      · exact .still
      · rename_i index used
        have name := (routed.named _ _ (Table.holds_of_get used)).2
        obtain ⟨framed, same⟩ := DocumentStreamCodec.framed_onAck (routed.framed index) seq
        obtain ⟨kept, still, messages⟩ := @MuxStream.framed_flushOutbound
          { mux.store index with codec := (mux.store index).codec.onAck seq } framed
        exact .serve _ _ used (still.trans (same.trans name)) kept
          fun message member => (messages message member).trans (same.trans name)
  | handleClose streamId reason =>
      obtain rfl := Option.some.inj stepped
      unfold handleClose
      split
      · exact .still
      · rename_i index used
        have name := (routed.named _ _ (Table.holds_of_get used)).2
        have removed := @Moves.remove mux _ _ { mux.store index with
            loopback := (mux.store index).loopback.closeIfOpen 1000 reason } [] used name
          (routed.framed index) (MuxLoopbackSocket.closeIfOpen_readyState _ _ _) nofun
        rw [send, List.append_nil] at removed
        exact removed
  | disposeAll reason =>
      obtain rfl := Option.some.inj stepped
      exact .dispose reason
  | loopbackOpened index delivers =>
      simp only [muxMachine] at stepped
      split at stepped
      · rename_i enabled
        obtain rfl := Option.some.inj stepped
        have used := found enabled.1 allowed
        unfold loopbackOpened
        dsimp only
        split
        · have served := @Moves.serve mux _ _ { (((mux.store index).become .opened).writeLoopback
              ((mux.store index).pendingInbound.take delivers)) with
            loopbackOpen := true, pendingInbound := [], pendingInboundBytes := 0 } []
            used rfl (routed.framed index) nofun
          rw [send, List.append_nil] at served
          exact served
        · refine moves_tearDown used ?_ ?_ _ _
          · rfl
          · exact routed.framed index
      · cases stepped
  | loopbackMessage index data =>
      simp only [muxMachine] at stepped
      split at stepped
      · rename_i made
        obtain rfl := Option.some.inj stepped
        cases data with
        | none => exact .still
        | some bytes =>
            have used := found made fun removed => allowed ⟨removed, rfl⟩
            obtain ⟨framed, same⟩ :=
              DocumentStreamCodec.framed_enqueue base64 (routed.framed index) bytes
            obtain ⟨kept, still, messages⟩ := @MuxStream.framed_flushOutbound
              { mux.store index with codec := (mux.store index).codec.enqueue base64 bytes } framed
            exact .serve _ _ used (still.trans same) kept
              fun message member => (messages message member).trans same
      · cases stepped
  | loopbackClosed index code reason =>
      simp only [muxMachine] at stepped
      split at stepped
      · rename_i made
        obtain rfl := Option.some.inj stepped
        by_cases removed : mux.Removed index
        · have unused : mux.streams.get (mux.store index).codec.streamId = none := by
            rw [← Option.not_isSome_iff_eq_none]
            exact fun used => allowed ⟨removed, used⟩
          rw [loopbackClosed_unused unused]
          exact .fade index removed
        · have used := found made removed
          rw [loopbackClosed_used used]
          refine .remove _ _ used rfl (routed.framed index) nofun ?_
          intro message member
          rw [List.mem_singleton.mp member]
          rfl
      · cases stepped

/-- The frames a step sends are for streams that were there before it. -/
theorem Moves.registered {mux next : StreamMux} (moved : Moves mux next) :
    ∀ message ∈ next.sent.drop mux.sent.length,
      (mux.streams.get message.streamId).isSome = true := by
  have none : ∀ after : StreamMux, after.sent = mux.sent →
      ∀ message ∈ after.sent.drop mux.sent.length,
        (mux.streams.get message.streamId).isSome = true := by
    intro after same message member
    rw [same, List.drop_length] at member
    cases member
  cases moved with
  | still => exact none _ rfl
  | make streamId unused =>
      apply none
      unfold handleOpen
      rw [unused]
      rfl
  | serve stream messages found same framed addressed =>
      intro message member
      rw [send, put, List.drop_left] at member
      rw [addressed message member, found]
      rfl
  | remove stream messages found same framed closed addressed =>
      intro message member
      rw [send, put, List.drop_left] at member
      rw [addressed message member, found]
      rfl
  | dispose reason => exact none _ rfl
  | fade index removed => exact none _ rfl

/-- Every such step keeps the ids of the streams and the loopbacks of removed streams as
they should be. -/
theorem Routed.moves {mux next : StreamMux} (routed : mux.Routed) (moved : Moves mux next) :
    next.Routed := by
  have frames : ∀ (index : Nat) (stream : MuxStream), stream.codec.Framed →
      ∀ other, (Function.update mux.store index stream other).codec.Framed := by
    intro index stream framed other
    by_cases same : other = index
    · rw [same, Function.update_self]
      exact framed
    · rw [Function.update_of_ne same]
      exact routed.framed other
  cases moved with
  | still => exact routed
  | make streamId unused =>
      have made : mux.handleOpen streamId =
          { mux.put mux.fresh (.new streamId mux.chunkBytes mux.windowBytes) with
            fresh := mux.fresh + 1
            streams := mux.streams.set streamId mux.fresh } := by
        unfold handleOpen
        rw [unused]
      rw [made]
      have apart : ∀ index, index < mux.fresh → Function.update mux.store mux.fresh
          (.new streamId mux.chunkBytes mux.windowBytes) index = mux.store index :=
        fun index below => Function.update_of_ne (Nat.ne_of_lt below) ..
      have unique := routed.unique.set streamId mux.fresh
      refine ⟨unique, ?_, frames _ _ nofun, ?_⟩
      · intro other index held
        rcases Table.holds_set.mp held with ⟨rfl, rfl⟩ | ⟨_, old⟩
        · refine ⟨Nat.lt_succ_self _, ?_⟩
          change (Function.update mux.store mux.fresh _ mux.fresh).codec.streamId = other
          rw [Function.update_self]
          rfl
        · obtain ⟨below, name⟩ := routed.named other index old
          refine ⟨Nat.lt_succ_of_lt below, ?_⟩
          change (Function.update mux.store mux.fresh _ index).codec.streamId = other
          rw [apart index below]
          exact name
      · intro index removed
        obtain ⟨below, missing⟩ := (removed_iff unique).mp removed
        change ¬ Table.Holds (mux.streams.set streamId mux.fresh)
          (Function.update mux.store mux.fresh _ index).codec.streamId index at missing
        change (Function.update mux.store mux.fresh _ index).loopback.readyState ≠ .opened
        by_cases newest : index = mux.fresh
        · rw [newest, Function.update_self]
          exact nofun
        · have old : index < mux.fresh := Nat.lt_of_le_of_ne (Nat.lt_succ_iff.mp below) newest
          rw [apart index old] at missing ⊢
          refine routed.closed index ((removed_iff routed.unique).mpr ⟨old, fun held => ?_⟩)
          refine missing (Table.holds_set.mpr (.inr ⟨?_, held⟩))
          intro same
          exact Table.not_holds_of_get unused index (same ▸ held)
  | @serve streamId index stream messages found same framed addressed =>
      have held := Table.holds_of_get found
      refine ⟨routed.unique, ?_, frames index stream framed, ?_⟩
      · intro other place listed
        obtain ⟨below, name⟩ := routed.named other place listed
        refine ⟨below, ?_⟩
        change (Function.update mux.store index stream place).codec.streamId = other
        by_cases here : place = index
        · subst here
          rw [Function.update_self, same, ← name, (routed.named _ _ held).2]
        · rw [Function.update_of_ne here]
          exact name
      · intro place removed
        have unique : ((mux.put index stream).send messages).streams.Unique := routed.unique
        obtain ⟨below, missing⟩ := (removed_iff unique).mp removed
        change ¬ mux.streams.Holds (Function.update mux.store index stream place).codec.streamId
          place at missing
        change (Function.update mux.store index stream place).loopback.readyState ≠ .opened
        by_cases here : place = index
        · subst here
          rw [Function.update_self, same] at missing
          exact absurd held missing
        · rw [Function.update_of_ne here] at missing ⊢
          exact routed.closed place ((removed_iff routed.unique).mpr ⟨below, missing⟩)
  | @remove streamId index stream messages found same framed closed addressed =>
      have held := Table.holds_of_get found
      have unique := (Table.within_delete mux.streams streamId).unique routed.unique
      refine ⟨unique, ?_, frames index stream framed, ?_⟩
      · intro other place listed
        obtain ⟨different, listed⟩ := Table.holds_delete.mp listed
        obtain ⟨below, name⟩ := routed.named other place listed
        refine ⟨below, ?_⟩
        change (Function.update mux.store index stream place).codec.streamId = other
        have elsewhere : place ≠ index := by
          rintro rfl
          exact different (name.symm.trans (routed.named _ _ held).2)
        rw [Function.update_of_ne elsewhere]
        exact name
      · intro place removed
        obtain ⟨below, missing⟩ := (removed_iff unique).mp removed
        change ¬ Table.Holds (mux.streams.delete streamId)
          (Function.update mux.store index stream place).codec.streamId place at missing
        change (Function.update mux.store index stream place).loopback.readyState ≠ .opened
        by_cases here : place = index
        · subst here
          rw [Function.update_self]
          exact closed
        · rw [Function.update_of_ne here] at missing ⊢
          refine routed.closed place ((removed_iff routed.unique).mpr ⟨below, fun listed => ?_⟩)
          refine missing (Table.holds_delete.mpr ⟨?_, listed⟩)
          intro equal
          rw [equal] at listed
          exact here (routed.unique.value_eq listed held)
  | dispose reason =>
      refine ⟨Table.unique_empty, nofun, ?_, ?_⟩
      · intro index
        unfold disposeAll
        dsimp only
        split <;> exact routed.framed index
      · intro index removed
        change (if mux.streams.entries.any fun entry => entry.2 = index then _ else _ :
          MuxStream).loopback.readyState ≠ .opened
        split
        · exact MuxLoopbackSocket.closeIfOpen_readyState _ _ _
        · rename_i absent
          have below : index < mux.fresh := ((removed_iff Table.unique_empty).mp removed).1
          refine routed.closed index ((removed_iff routed.unique).mpr ⟨below, fun held => ?_⟩)
          exact absent (List.any_eq_true.mpr ⟨_, held, decide_eq_true rfl⟩)
  | fade index removed =>
      have codec : ∀ place, (Function.update mux.store index
          ((mux.store index).become .closed) place).codec = (mux.store place).codec := by
        intro place
        by_cases here : place = index
        · rw [here, Function.update_self]
          rfl
        · rw [Function.update_of_ne here]
      refine ⟨routed.unique, ?_, frames _ _ (routed.framed index), ?_⟩
      · intro other place listed
        obtain ⟨below, name⟩ := routed.named other place listed
        exact ⟨below, (congrArg DocumentStreamCodec.streamId (codec place)).trans name⟩
      · intro place gone
        change (Function.update mux.store index _ place).loopback.readyState ≠ .opened
        by_cases here : place = index
        · rw [here, Function.update_self]
          exact nofun
        · rw [Function.update_of_ne here]
          refine routed.closed place ⟨gone.1, fun used => gone.2 ?_⟩
          exact (congrArg mux.streams.get (congrArg DocumentStreamCodec.streamId
            (codec place))).trans used

/-- No streams are routed by themselves. -/
theorem routed_new (chunkBytes : Option Nat) (windowBytes : Option Int) :
    (new chunkBytes windowBytes).Routed :=
  ⟨Table.unique_empty, nofun, fun _ => nofun, fun _ removed => absurd removed.1 (Nat.not_lt_zero _)⟩

/-- An event of a removed stream's loopback that the condition admits does nothing to the
other streams. -/
theorem apart_step {mux next : StreamMux} {label : MuxLabel} (allowed : ¬ mux.Haunts label)
    (stepped : (muxMachine base64).step mux label = some next) {index : Nat}
    (event : label.loopback = some index) (removed : mux.Removed index) :
    next.streams = mux.streams ∧ next.sent = mux.sent ∧
      ∀ other, other ≠ index → next.store other = mux.store other := by
  cases label with
  | handleOpen streamId => cases event
  | handleData frame delivers => cases event
  | handleDataAck streamId seq => cases event
  | handleClose streamId reason => cases event
  | disposeAll reason => cases event
  | loopbackOpened place delivers =>
      obtain rfl := Option.some.inj event
      exact absurd removed allowed
  | loopbackMessage place data =>
      obtain rfl := Option.some.inj event
      simp only [muxMachine] at stepped
      split at stepped
      · obtain rfl := Option.some.inj stepped
        cases data with
        | none => exact ⟨rfl, rfl, fun _ _ => rfl⟩
        | some bytes => exact absurd ⟨removed, rfl⟩ allowed
      · cases stepped
  | loopbackClosed place code reason =>
      obtain rfl := Option.some.inj event
      simp only [muxMachine] at stepped
      split at stepped
      · obtain rfl := Option.some.inj stepped
        have unused : mux.streams.get (mux.store place).codec.streamId = none := by
          rw [← Option.not_isSome_iff_eq_none]
          exact fun used => allowed ⟨removed, used⟩
        rw [loopbackClosed_unused unused]
        exact ⟨rfl, rfl, fun _ different => Function.update_of_ne different ..⟩
      · cases stepped

end StreamMux

/-- **Closed streams stay silent.** In every run from a multiplexer without streams in
which no loopback of a removed stream opens, sends bytes, or closes while the id of its
stream is in use again, every step is silent. -/
theorem streams_stay_silent {base64 : Base64} {chunkBytes : Option Nat}
    {windowBytes : Option Int} {labels : List MuxLabel} {mux next : StreamMux} {label : MuxLabel}
    (run : (muxMachine base64).Run (fun mux label => ¬ mux.Haunts label)
      (.new chunkBytes windowBytes) labels mux)
    (allowed : ¬ mux.Haunts label) (stepped : (muxMachine base64).step mux label = some next) :
    mux.Silent label next := by
  have routed : mux.Routed := run.invariant
    (fun _ _ _ allowed stepped routed => routed.moves (StreamMux.moves_step routed allowed stepped))
    (StreamMux.routed_new chunkBytes windowBytes)
  have moved := StreamMux.moves_step routed allowed stepped
  exact ⟨moved.registered,
    fun index event removed => StreamMux.apart_step allowed stepped event removed,
    (routed.moves moved).closed⟩

/-- The relay closes a stream, and then a message arrives from the loopback that is still
closing: it is sent as data of the closed stream. -/
theorem removed_stream_sends :
    ∃ labels mux next, (muxMachine platformBase64).Run (fun _ _ => True) (.new none none) labels
        mux ∧
      (muxMachine platformBase64).step mux (.loopbackMessage 0 (some [1])) = some next ∧
      ¬ mux.Silent (.loopbackMessage 0 (some [1])) next := by
  obtain ⟨mux, run, seen⟩ : ∃ mux, (muxMachine platformBase64).Run (fun _ _ => True)
      (.new none none)
      [.handleOpen [115], .loopbackOpened 0 0, .handleClose [115] []] mux ∧
      (mux.streams.get [115], decide (0 < mux.fresh), mux.sent.length,
        (mux.loopbackMessage platformBase64 0 (some [1])).sent.map MuxMessage.streamId) =
        (none, true, 0, [[115]]) :=
    Machine.evaluate_view (by decide +kernel)
  obtain ⟨free, rest⟩ := Prod.mk.inj seen
  obtain ⟨made, rest⟩ := Prod.mk.inj rest
  obtain ⟨before, after⟩ := Prod.mk.inj rest
  refine ⟨_, mux, _, run, if_pos (of_decide_eq_true made), fun silent => ?_⟩
  have registered := silent.registered
  rw [before, List.drop_zero] at registered
  have listed : ([115] : JsString) ∈
      (mux.loopbackMessage platformBase64 0 (some [1])).sent.map MuxMessage.streamId := by
    rw [after]
    exact List.mem_singleton_self _
  obtain ⟨message, member, name⟩ := List.mem_map.mp listed
  have used := registered message member
  rw [name, free] at used
  cases used

/-- A stream that carries a message each way is closed, its id is used again, and the
message of the second loopback is sent. -/
theorem streams_stay_silent_reopened :
    ∃ mux next, (muxMachine platformBase64).Run (fun mux label => ¬ mux.Haunts label)
        (.new none none)
        [.handleOpen [115], .handleData ⟨[115], 0, units "AQ==", true⟩ true, .loopbackOpened 0 1,
          .loopbackMessage 0 (some [7]), .handleDataAck [115] 0, .handleClose [115] [],
          .loopbackClosed 0 (some 1000) [], .handleOpen [115], .loopbackOpened 1 0] mux ∧
      (muxMachine platformBase64).step mux (.loopbackMessage 1 (some [8])) = some next ∧
      next.sent.length = 3 ∧ mux.Silent (.loopbackMessage 1 (some [8])) next := by
  obtain ⟨mux, run, seen⟩ : ∃ mux, (muxMachine platformBase64).Run
      (fun mux label => ¬ mux.Haunts label) (.new none none)
      [.handleOpen [115], .handleData ⟨[115], 0, units "AQ==", true⟩ true, .loopbackOpened 0 1,
        .loopbackMessage 0 (some [7]), .handleDataAck [115] 0, .handleClose [115] [],
        .loopbackClosed 0 (some 1000) [], .handleOpen [115], .loopbackOpened 1 0] mux ∧
      (decide (mux.Haunts (.loopbackMessage 1 (some [8]))), decide (1 < mux.fresh),
        (mux.loopbackMessage platformBase64 1 (some [8])).sent.length) = (false, true, 3) :=
    Machine.evaluate_view (by decide +kernel)
  obtain ⟨allowed, rest⟩ := Prod.mk.inj seen
  obtain ⟨made, count⟩ := Prod.mk.inj rest
  have stepped : (muxMachine platformBase64).step mux (.loopbackMessage 1 (some [8])) =
      some (mux.loopbackMessage platformBase64 1 (some [8])) := if_pos (of_decide_eq_true made)
  exact ⟨mux, _, run, stepped, count,
    streams_stay_silent run (of_decide_eq_false allowed) stepped⟩

end Kb1Daemon
