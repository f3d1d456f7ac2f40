import Kb1Daemon.Tunnel.Mux

/-! # The messages that a stream receives

What a stream has written to its loopback is the front of the messages that its frames complete.
While the stream is registered, the rest of them waits in `pendingInbound`, within the window; a
frame is acknowledged only in the step that takes its message, and a delivery that fails removes
the stream (`inbound_delivered`). A message that waits is acknowledged before it is delivered, and
so its delivery can still fail (`acknowledged_then_dropped`).
-/

namespace Kb1Daemon

open DocumentStreamCodec (piece)

/-- What frames complete, frame by frame, up to one that is no base64 or makes a message too
large. -/
def frameOutputs (base64 : Base64) (frames : List TunnelWebSocketDataEnvelope) :
    List (Option Bytes) :=
  (Joiner.mk tunnelWsDataMessageByteLimit []).outputs
    ((frames.takeWhile (·.readable base64)).map (piece base64))

/-- The messages that frames complete. -/
def frameMessages (base64 : Base64) (frames : List TunnelWebSocketDataEnvelope) : List Bytes :=
  (frameOutputs base64 frames).reduceOption

/-- What a codec has received. -/
def DocumentStreamCodec.receiving (codec : DocumentStreamCodec) :
    JsString × Nat × List Bytes × Nat :=
  (codec.streamId, codec.messageByteLimit, codec.inbound, codec.inboundBytes)

namespace DocumentStreamCodec

variable (base64 : Base64)

theorem receiving_enqueueLoop (codec : DocumentStreamCodec) (fuel : Nat) (rest : Bytes) :
    (codec.enqueueLoop base64 fuel rest).receiving = codec.receiving := by
  induction fuel generalizing codec rest with
  | zero => rfl
  | succ fuel ih =>
      unfold enqueueLoop
      split
      · rfl
      · exact ih _ _

theorem receiving_enqueue (codec : DocumentStreamCodec) (bytes : Bytes) :
    (codec.enqueue base64 bytes).receiving = codec.receiving := by
  unfold enqueue
  split
  · rfl
  · exact receiving_enqueueLoop base64 codec _ _

theorem receiving_onAck (codec : DocumentStreamCodec) (seq : Nat) :
    (codec.onAck seq).receiving = codec.receiving := by
  unfold onAck
  split <;> rfl

theorem receiving_ingest (codec : DocumentStreamCodec) (frame : TunnelWebSocketDataEnvelope) :
    (codec.ingest base64 frame).1.streamId = codec.streamId ∧
      (codec.ingest base64 frame).1.messageByteLimit = codec.messageByteLimit := by
  unfold ingest
  split
  · exact ⟨rfl, rfl⟩
  · dsimp only
    split_ifs <;> exact ⟨rfl, rfl⟩

end DocumentStreamCodec

section Readable

variable {base64 : Base64} {frames : List TunnelWebSocketDataEnvelope}

theorem takeWhile_readable (readable : ∀ frame ∈ frames, frame.readable base64 = true) :
    frames.takeWhile (·.readable base64) = frames :=
  List.takeWhile_eq_self_iff.mpr readable

/-- Readable frames complete what their pieces do. -/
theorem frameMessages_run (readable : ∀ frame ∈ frames, frame.readable base64 = true)
    {joined : Joiner UInt8} {messages : List Bytes}
    (ran : (Joiner.mk tunnelWsDataMessageByteLimit []).run (frames.map (piece base64)) =
      some (joined, messages)) : frameMessages base64 frames = messages := by
  rw [frameMessages, frameOutputs, takeWhile_readable readable]
  exact Joiner.outputs_run ran

/-- A frame that is not readable completes nothing. -/
theorem frameMessages_unreadable (readable : ∀ frame ∈ frames, frame.readable base64 = true)
    {frame : TunnelWebSocketDataEnvelope} (unreadable : frame.readable base64 = false) :
    frameMessages base64 (frames ++ [frame]) = frameMessages base64 frames := by
  have stop : [frame].takeWhile (·.readable base64) = [] :=
    List.takeWhile_cons_of_neg (by rw [unreadable]; exact Bool.false_ne_true)
  rw [frameMessages, frameMessages, frameOutputs, frameOutputs,
    List.takeWhile_append_of_pos readable, stop, List.append_nil, takeWhile_readable readable]

end Readable

/-- What a stream has received. -/
def MuxStream.receiving (stream : MuxStream) :
    (JsString × Nat × List Bytes × Nat) × List Bytes × Bool × List Bytes × Nat :=
  (stream.codec.receiving, stream.loopback.received, stream.loopbackOpen, stream.pendingInbound,
    stream.pendingInboundBytes)

/-- A stream that has taken some frames: what it has written is the front of their messages, and
if it is registered, the others wait for its loopback to open. -/
structure StreamKept (base64 : Base64) (window : Int) (frames : List TunnelWebSocketDataEnvelope)
    (registered : Prop) (stream : MuxStream) : Prop where
  limit : stream.codec.messageByteLimit = tunnelWsDataMessageByteLimit
  counted : stream.codec.Counted
  readable : registered → ∀ frame ∈ frames, frame.readable base64 = true
  joined : registered → (Joiner.mk tunnelWsDataMessageByteLimit []).run (frames.map (piece base64)) =
    some (stream.codec.joiner, stream.loopback.received ++ stream.pendingInbound)
  front : stream.loopback.received <+: frameMessages base64 frames
  waiting : stream.loopback.readyState = .connecting → stream.loopback.received = [] ∧
    stream.loopbackOpen = false ∧ stream.pendingInbound <+: frameMessages base64 frames
  emptied : registered → stream.loopbackOpen = true → stream.pendingInbound = []
  bytes : stream.pendingInboundBytes = (stream.pendingInbound.map List.length).sum
  bounded : (stream.pendingInboundBytes : Int) ≤ max 0 window

namespace StreamKept

variable {base64 : Base64} {window : Int} {frames : List TunnelWebSocketDataEnvelope}
  {registered later : Prop} {stream next : MuxStream}

theorem messages (kept : StreamKept base64 window frames registered stream) (holds : registered) :
    frameMessages base64 frames = stream.loopback.received ++ stream.pendingInbound :=
  frameMessages_run (kept.readable holds) (kept.joined holds)

/-- What a stream has received stays. -/
theorem congr (kept : StreamKept base64 window frames registered stream)
    (same : next.receiving = stream.receiving)
    (connecting : next.loopback.readyState = .connecting →
      stream.loopback.readyState = .connecting) (implied : later → registered) :
    StreamKept base64 window frames later next := by
  obtain ⟨codec, received, opened, pending, bytes⟩ :
      next.codec.receiving = stream.codec.receiving ∧
        next.loopback.received = stream.loopback.received ∧
        next.loopbackOpen = stream.loopbackOpen ∧ next.pendingInbound = stream.pendingInbound ∧
        next.pendingInboundBytes = stream.pendingInboundBytes := by
    simpa [MuxStream.receiving] using same
  obtain ⟨_, limit, inbound, count⟩ : next.codec.streamId = stream.codec.streamId ∧
      next.codec.messageByteLimit = stream.codec.messageByteLimit ∧
      next.codec.inbound = stream.codec.inbound ∧
      next.codec.inboundBytes = stream.codec.inboundBytes := by
    simpa [DocumentStreamCodec.receiving] using codec
  have joiner : next.codec.joiner = stream.codec.joiner := by
    rw [DocumentStreamCodec.joiner, limit, inbound]
    rfl
  have counted := kept.counted
  constructor
  case limit => rw [limit, kept.limit]
  case counted =>
    unfold DocumentStreamCodec.Counted at counted ⊢
    rw [count, inbound, counted]
  case readable => exact fun holds => kept.readable (implied holds)
  case joined => exact fun holds => by rw [joiner, received, pending, kept.joined (implied holds)]
  case front => exact received ▸ kept.front
  case waiting =>
    rw [received, opened, pending]
    exact fun is => kept.waiting (connecting is)
  case emptied =>
    rw [opened, pending]
    exact fun holds => kept.emptied (implied holds)
  case bytes => rw [bytes, pending, kept.bytes]
  case bounded => exact bytes ▸ kept.bounded

variable (base64 frames) in
/-- A codec refuses a frame, or joins it to the frames before, whose messages are given. -/
def Took (frame : TunnelWebSocketDataEnvelope) (messages : List Bytes)
    (codec : DocumentStreamCodec) : Except IngestError (Option Bytes) → Prop
  | .error _ => frameMessages base64 (frames ++ [frame]) = frameMessages base64 frames
  | .ok message => (∀ taken ∈ frames ++ [frame], taken.readable base64 = true) ∧
      (Joiner.mk tunnelWsDataMessageByteLimit []).run ((frames ++ [frame]).map (piece base64)) =
        some (codec.joiner, messages ++ message.toList)

/-- **A frame arrives** at a registered stream. -/
theorem ingested (kept : StreamKept base64 window frames registered stream) (holds : registered)
    {frame : TunnelWebSocketDataEnvelope} {codec : DocumentStreamCodec}
    {result : Except IngestError (Option Bytes)}
    (ingests : stream.codec.ingest base64 frame = (codec, result)) :
    codec.Counted ∧ codec.messageByteLimit = tunnelWsDataMessageByteLimit ∧
      Took base64 frames frame (stream.loopback.received ++ stream.pendingInbound) codec
        result := by
  have ran := kept.joined holds
  have earlier := kept.readable holds
  have limit := (DocumentStreamCodec.receiving_ingest base64 stream.codec frame).2
  rw [ingests] at limit
  by_cases readable : frame.readable base64 = true
  case neg =>
    have unreadable := Bool.eq_false_iff.mpr readable
    obtain ⟨text, refused⟩ := DocumentStreamCodec.ingest_unreadable base64 unreadable stream.codec
    cases ingests.symm.trans refused
    exact ⟨kept.counted, kept.limit, frameMessages_unreadable earlier unreadable⟩
  have all : ∀ taken ∈ frames ++ [frame], taken.readable base64 = true :=
    List.forall_mem_append.mpr ⟨earlier, List.forall_mem_singleton.mpr readable⟩
  obtain ⟨counted, taken⟩ := DocumentStreamCodec.ingest_spec base64 kept.counted readable
  rw [ingests] at counted taken
  refine ⟨counted, limit.trans kept.limit, ?_⟩
  dsimp only at taken
  cases accepted : stream.codec.joiner.accept (piece base64 frame) with
  | none =>
      rw [accepted] at taken
      dsimp only at taken
      rw [taken, Took, frameMessages, frameMessages, frameOutputs, frameOutputs,
        takeWhile_readable all, takeWhile_readable earlier, List.map_append, List.map_singleton,
        Joiner.outputs_append ran, Joiner.outputs, accepted, List.append_nil]
  | some accepted' =>
      obtain ⟨joined, message⟩ := accepted'
      rw [accepted] at taken
      dsimp only at taken
      rw [taken.1]
      refine ⟨all, ?_⟩
      rw [List.map_append, List.map_singleton, Joiner.run_append, ran, Option.bind_some,
        Joiner.run, accepted, taken.2]
      simp [Joiner.run]

/-- A frame completes no message. -/
theorem chunk (kept : StreamKept base64 window frames registered stream) (holds : registered)
    {frame : TunnelWebSocketDataEnvelope} {codec : DocumentStreamCodec}
    (ingests : stream.codec.ingest base64 frame = (codec, .ok none)) :
    StreamKept base64 window (frames ++ [frame]) registered { stream with codec := codec } := by
  obtain ⟨counted, limit, ran⟩ := kept.ingested holds ingests
  rw [Took, Option.toList_none, List.append_nil] at ran
  obtain ⟨readable, ran⟩ := ran
  have same : frameMessages base64 (frames ++ [frame]) = frameMessages base64 frames :=
    (frameMessages_run readable ran).trans (kept.messages holds).symm
  exact ⟨limit, counted, fun _ => readable, fun _ => ran, same ▸ kept.front, same ▸ kept.waiting, kept.emptied,
    kept.bytes, kept.bounded⟩

/-- A message is written. -/
theorem written (kept : StreamKept base64 window frames registered stream) (holds : registered)
    {frame : TunnelWebSocketDataEnvelope} {codec : DocumentStreamCodec} {message : Bytes}
    (ingests : stream.codec.ingest base64 frame = (codec, .ok (some message)))
    (opened : stream.loopbackOpen = true) :
    StreamKept base64 window (frames ++ [frame]) registered
      (MuxStream.writeLoopback { stream with codec := codec } [message]) := by
  obtain ⟨counted, limit, ran⟩ := kept.ingested holds ingests
  have none := kept.emptied holds opened
  rw [Took, none, List.append_nil, Option.toList_some] at ran
  obtain ⟨readable, ran⟩ := ran
  have whole : frameMessages base64 (frames ++ [frame]) = stream.loopback.received ++ [message] :=
    frameMessages_run readable ran
  refine ⟨limit, counted, fun _ => readable, fun _ => ?_, ?_, ?_, kept.emptied, kept.bytes, kept.bounded⟩
  · dsimp only [MuxStream.writeLoopback]
    rw [none, List.append_nil, ran]
  · rw [whole]
    exact List.prefix_refl _
  · intro connecting
    exact absurd ((kept.waiting connecting).2.1.symm.trans opened) Bool.false_ne_true

/-- A message waits for the loopback. -/
theorem buffered (kept : StreamKept base64 window frames registered stream) (holds : registered)
    {frame : TunnelWebSocketDataEnvelope} {codec : DocumentStreamCodec} {message : Bytes}
    (ingests : stream.codec.ingest base64 frame = (codec, .ok (some message)))
    (unopened : ¬stream.loopbackOpen = true)
    (fits : ¬window < stream.pendingInboundBytes + message.length) :
    StreamKept base64 window (frames ++ [frame]) registered
      { stream with
        codec := codec
        pendingInbound := stream.pendingInbound ++ [message]
        pendingInboundBytes := stream.pendingInboundBytes + message.length } := by
  obtain ⟨counted, limit, ran⟩ := kept.ingested holds ingests
  rw [Took, Option.toList_some, List.append_assoc] at ran
  obtain ⟨readable, ran⟩ := ran
  have whole : frameMessages base64 (frames ++ [frame]) =
      stream.loopback.received ++ (stream.pendingInbound ++ [message]) :=
    frameMessages_run readable ran
  refine ⟨limit, counted, fun _ => readable, fun _ => ran, ?_, ?_, fun _ opened => absurd opened unopened, ?_, ?_⟩
  · rw [whole]
    exact List.prefix_append _ _
  · intro connecting
    obtain ⟨nothing, closed, _⟩ := kept.waiting connecting
    refine ⟨nothing, closed, ?_⟩
    rw [whole, nothing]
    exact List.prefix_refl _
  · dsimp only
    rw [kept.bytes, List.map_append, List.sum_append, List.map_singleton, List.sum_singleton]
  · dsimp only
    rw [Int.natCast_add]
    omega

/-- A frame is not taken, and its stream is removed. -/
theorem dropped (kept : StreamKept base64 window frames registered stream) (holds : registered)
    {frame : TunnelWebSocketDataEnvelope} {codec : DocumentStreamCodec}
    {result : Except IngestError (Option Bytes)}
    (ingests : stream.codec.ingest base64 frame = (codec, result)) :
    StreamKept base64 window (frames ++ [frame]) False { stream with codec := codec } := by
  obtain ⟨counted, limit, ran⟩ := kept.ingested holds ingests
  have more : frameMessages base64 frames <+: frameMessages base64 (frames ++ [frame]) := by
    cases result with
    | error error => exact ran ▸ List.prefix_refl _
    | ok message =>
        rw [kept.messages holds, frameMessages_run ran.1 ran.2]
        exact List.prefix_append _ _
  refine ⟨limit, counted, False.elim, False.elim, kept.front.trans more, fun connecting => ?_, False.elim,
    kept.bytes, kept.bounded⟩
  obtain ⟨nothing, closed, pending⟩ := kept.waiting connecting
  exact ⟨nothing, closed, pending.trans more⟩

/-- The loopback opens and takes all that waits for it. -/
theorem drained (kept : StreamKept base64 window frames registered stream)
    (connecting : stream.loopback.readyState = .connecting) :
    StreamKept base64 window frames registered
      { MuxStream.writeLoopback { stream.become .opened with loopbackOpen := true }
          stream.pendingInbound with
        pendingInbound := []
        pendingInboundBytes := 0 } := by
  obtain ⟨nothing, _, pending⟩ := kept.waiting connecting
  refine ⟨kept.limit, kept.counted, kept.readable, fun holds => ?_, ?_, nofun, fun _ _ => rfl, rfl,
    ?_⟩
  · have ran := kept.joined holds
    simpa [MuxStream.writeLoopback, MuxStream.become] using ran
  · dsimp only [MuxStream.writeLoopback, MuxStream.become]
    rw [nothing, List.nil_append]
    exact pending
  · exact Int.le_max_left _ _

/-- The loopback opens and takes some of what waits for it. -/
theorem halted (kept : StreamKept base64 window frames registered stream)
    (connecting : stream.loopback.readyState = .connecting) (delivers : Nat) :
    StreamKept base64 window frames False
      (MuxStream.writeLoopback { stream.become .opened with loopbackOpen := true }
        (stream.pendingInbound.take delivers)) := by
  obtain ⟨nothing, _, pending⟩ := kept.waiting connecting
  refine ⟨kept.limit, kept.counted, False.elim, False.elim, ?_, nofun, False.elim, kept.bytes,
    kept.bounded⟩
  dsimp only [MuxStream.writeLoopback, MuxStream.become]
  rw [nothing, List.nil_append]
  exact (List.take_prefix _ _).trans pending

theorem new (streamId : JsString) (chunkBytes : Option Nat) (windowBytes : Option Int) :
    StreamKept base64 window [] registered (.new streamId chunkBytes windowBytes) :=
  ⟨rfl, rfl, fun _ => nofun, fun _ => rfl, List.nil_prefix, fun _ => ⟨rfl, rfl, List.nil_prefix⟩, fun _ _ => rfl,
    rfl, Int.le_max_left _ _⟩

end StreamKept

/-- The messages that a step hands to the control socket. -/
def StreamMux.sentSince (mux next : StreamMux) : List MuxMessage := next.sent.drop mux.sent.length

/-- A multiplexer, and for each stream the frames that have arrived while it was registered, with
whether they were acknowledged then. -/
structure InboundMux where
  mux : StreamMux
  journal : Nat → List (TunnelWebSocketDataEnvelope × Bool)

namespace InboundMux

def journalAfter (inbound : InboundMux) (label : MuxLabel) (next : StreamMux) :
    Nat → List (TunnelWebSocketDataEnvelope × Bool) :=
  match label with
  | .handleData frame _ =>
      match inbound.mux.streams.get frame.streamId with
      | none => inbound.journal
      | some index =>
          Function.update inbound.journal index (inbound.journal index ++
            [(frame, decide (.dataAck frame.streamId frame.seq ∈ inbound.mux.sentSince next))])
  | _ => inbound.journal

/-- The frames of a stream. -/
def frames (inbound : InboundMux) (index : Nat) : List TunnelWebSocketDataEnvelope :=
  (inbound.journal index).map Prod.fst

end InboundMux

/-- The machine of the multiplexer and its journals. -/
def inboundMachine (base64 : Base64) : Machine InboundMux MuxLabel where
  step inbound label :=
    ((muxMachine base64).step inbound.mux label).map fun next =>
      ⟨next, inbound.journalAfter label next⟩

namespace StreamMux

variable {mux next : StreamMux} {index : Nat} {stream : MuxStream}

/-- The id of the stream is its own. -/
def Registered (mux : StreamMux) (index : Nat) : Prop :=
  mux.streams.Holds (mux.store index).codec.streamId index

/-- One stream is changed, and some are unregistered. -/
structure Changes (mux : StreamMux) (index : Nat) (stream : MuxStream) (next : StreamMux) :
    Prop where
  store : next.store = Function.update mux.store index stream
  streams : next.streams.Within mux.streams
  fresh : next.fresh = mux.fresh
  window : next.windowBytes = mux.windowBytes

/-- Sending leaves the streams alone. -/
theorem changes_send (changes : Changes mux index stream next) (messages : List MuxMessage) :
    Changes mux index stream (next.send messages) :=
  ⟨changes.store, changes.streams, changes.fresh, changes.window⟩

theorem changes_put (mux : StreamMux) (index : Nat) (stream : MuxStream) :
    Changes mux index stream (mux.put index stream) :=
  ⟨rfl, .refl _, rfl, rfl⟩

theorem changes_delete (mux : StreamMux) (index : Nat) (stream : MuxStream) (streamId : JsString) :
    Changes mux index stream
      { mux.put index stream with streams := mux.streams.delete streamId } :=
  ⟨rfl, Table.within_delete _ _, rfl, rfl⟩

/-- A stream that is registered is torn down. -/
theorem tearDown_put {streamId : JsString} (found : mux.streams.get streamId = some index)
    (stream : MuxStream) (code : Nat) (reason : JsString) :
    (mux.put index stream).tearDown streamId code reason =
      send { mux.put index { stream with loopback := stream.loopback.closeIfOpen 1002 reason } with
        streams := mux.streams.delete streamId } [.close streamId code reason] := by
  unfold tearDown
  rw [show (mux.put index stream).streams.get streamId = some index from found]
  simp only [put, Function.update_self, Function.update_idem]

end StreamMux

namespace InboundMux

open StreamMux

variable {base64 : Base64} {windowBytes : Option Int} {inbound : InboundMux} {next : StreamMux}
  {journal : Nat → List (TunnelWebSocketDataEnvelope × Bool)} {index : Nat} {stream : MuxStream}

/-- Every stream has kept what it took, and has the id it is registered under. -/
structure Sound (base64 : Base64) (windowBytes : Option Int) (inbound : InboundMux) : Prop where
  window : inbound.mux.windowBytes = windowBytes
  unique : inbound.mux.streams.Unique
  named : ∀ streamId index, inbound.mux.streams.Holds streamId index →
    index < inbound.mux.fresh ∧ (inbound.mux.store index).codec.streamId = streamId
  unmade : ∀ index, inbound.mux.fresh ≤ index → inbound.journal index = []
  kept : ∀ index, StreamKept base64 (windowBytes.getD tunnelWsDataWindowBytes)
    (inbound.frames index) (inbound.mux.Registered index) (inbound.mux.store index)

theorem store_of_changes {mux : StreamMux} (changes : mux.Changes index stream next) (other : Nat) :
    next.store other = if other = index then stream else mux.store other := by
  rw [changes.store]
  exact Function.update_apply _ _ _ _

/-- **One stream changes**, and keeps what it took. -/
theorem Sound.change (sound : inbound.Sound base64 windowBytes)
    (changes : inbound.mux.Changes index stream next) (made : index < inbound.mux.fresh)
    (name : stream.codec.streamId = (inbound.mux.store index).codec.streamId)
    (others : ∀ other, other ≠ index → journal other = inbound.journal other)
    (kept : StreamKept base64 (windowBytes.getD tunnelWsDataWindowBytes)
      ((journal index).map Prod.fst) (next.Registered index) stream) :
    Sound base64 windowBytes ⟨next, journal⟩ := by
  have names : ∀ other, (next.store other).codec.streamId =
      (inbound.mux.store other).codec.streamId := by
    intro other
    rw [store_of_changes changes]
    split_ifs with own
    · rw [own, name]
    · rfl
  refine ⟨changes.window.trans sound.window, changes.streams.unique sound.unique, ?_, ?_, ?_⟩
  · intro streamId other listed
    obtain ⟨below, named⟩ := sound.named streamId other (changes.streams.holds listed)
    exact ⟨changes.fresh ▸ below, (names other).trans named⟩
  · intro other above
    dsimp only at above
    rw [changes.fresh] at above
    exact (others other (by omega)).trans (sound.unmade other above)
  · intro other
    dsimp only
    rw [store_of_changes changes]
    split_ifs with own
    · rw [own]
      exact kept
    · have same := sound.kept other
      rw [InboundMux.frames, ← others other own] at same
      refine same.congr rfl id fun registered => ?_
      have listed := changes.streams.holds registered
      rwa [names] at listed

/-- A stream changes without receiving. -/
theorem Sound.still (sound : inbound.Sound base64 windowBytes)
    (changes : inbound.mux.Changes index stream next) (made : index < inbound.mux.fresh)
    (same : stream.receiving = (inbound.mux.store index).receiving)
    (connecting : stream.loopback.readyState = .connecting →
      (inbound.mux.store index).loopback.readyState = .connecting) :
    Sound base64 windowBytes ⟨next, inbound.journal⟩ := by
  have name : stream.codec.streamId = (inbound.mux.store index).codec.streamId :=
    congrArg (·.1.1) same
  refine sound.change changes made name (fun _ _ => rfl) ?_
  refine (sound.kept index).congr same connecting fun registered => ?_
  have listed := changes.streams.holds registered
  rwa [store_of_changes changes, if_pos rfl, name] at listed

theorem Sound.index_lt (sound : inbound.Sound base64 windowBytes) {streamId : JsString}
    (found : inbound.mux.streams.get streamId = some index) :
    index < inbound.mux.fresh ∧ (inbound.mux.store index).codec.streamId = streamId :=
  sound.named streamId index (Table.holds_of_get found)

theorem receiving_closeIfOpen (stream : MuxStream) (code : Nat) (reason : JsString) :
    MuxStream.receiving { stream with loopback := stream.loopback.closeIfOpen code reason } =
      stream.receiving := by
  unfold MuxStream.receiving MuxLoopbackSocket.closeIfOpen
  split_ifs <;> rfl

theorem connecting_of_closeIfOpen {loopback : MuxLoopbackSocket} {code : Nat} {reason : JsString}
    (connecting : (loopback.closeIfOpen code reason).readyState = .connecting) :
    loopback.readyState = .connecting := by
  unfold MuxLoopbackSocket.closeIfOpen at connecting
  split_ifs at connecting
  · cases connecting
  · exact connecting

/-- A stream takes a frame and acknowledges it, or is removed. -/
inductive Receives (base64 : Base64) (inbound : InboundMux) (window : Int)
    (frame : TunnelWebSocketDataEnvelope) (index : Nat) : StreamMux → Prop where
  | taken (stream : MuxStream) : stream.codec.streamId = frame.streamId →
      StreamKept base64 window (inbound.frames index ++ [frame]) True stream →
      Receives base64 inbound window frame index
        ((inbound.mux.put index stream).send [.dataAck frame.streamId frame.seq])
  | removed (stream : MuxStream) (code : Nat) (reason : JsString) :
      stream.codec.streamId = frame.streamId →
      StreamKept base64 window (inbound.frames index ++ [frame]) False stream →
      Receives base64 inbound window frame index
        (send { inbound.mux.put index stream with
          streams := inbound.mux.streams.delete frame.streamId }
          [.close frame.streamId code reason])

/-- **Frames** are taken, or their stream is removed. -/
theorem Sound.handleData (sound : inbound.Sound base64 windowBytes)
    {frame : TunnelWebSocketDataEnvelope}
    (found : inbound.mux.streams.get frame.streamId = some index) (delivers : Bool) :
    Receives base64 inbound (windowBytes.getD tunnelWsDataWindowBytes) frame index
      (inbound.mux.handleData base64 frame delivers) := by
  obtain ⟨_, name⟩ := sound.index_lt found
  have registered : inbound.mux.Registered index := by
    rw [Registered, name]
    exact Table.holds_of_get found
  have kept : StreamKept base64 (windowBytes.getD tunnelWsDataWindowBytes)
      (inbound.frames index) True (inbound.mux.store index) :=
    (sound.kept index).congr rfl id fun _ => registered
  have named := (DocumentStreamCodec.receiving_ingest base64 (inbound.mux.store index).codec
    frame).1
  have closed : ∀ {stream : MuxStream} (code : Nat) (reason : JsString),
      StreamKept base64 (windowBytes.getD tunnelWsDataWindowBytes)
        (inbound.frames index ++ [frame]) False stream →
      StreamKept base64 (windowBytes.getD tunnelWsDataWindowBytes)
        (inbound.frames index ++ [frame]) False
        { stream with loopback := stream.loopback.closeIfOpen code reason } := by
    intro stream code reason dropped
    exact dropped.congr (receiving_closeIfOpen _ _ _) connecting_of_closeIfOpen id
  unfold StreamMux.handleData
  rw [found]
  dsimp only
  split
  all_goals
    rename_i codec _ ingests
    rw [ingests] at named
  · rw [tearDown_put found]
    exact .removed _ _ _ (named.trans name) (closed _ _ (kept.dropped trivial ingests))
  · exact .taken _ (named.trans name) (kept.chunk trivial ingests)
  · rw [sound.window]
    split_ifs with opened delivered large
    · exact .taken _ (named.trans name) (kept.written trivial ingests opened)
    · rw [tearDown_put found]
      exact .removed _ _ _ (named.trans name) (closed _ _ (kept.dropped trivial ingests))
    · rw [tearDown_put found]
      exact .removed _ _ _ (named.trans name) (closed _ _ (kept.dropped trivial ingests))
    · exact .taken _ (named.trans name) (kept.buffered trivial ingests opened large)

theorem receiving_flushOutbound (stream : MuxStream) :
    stream.flushOutbound.1.receiving = stream.receiving := rfl

theorem Sound.handleOpen (sound : inbound.Sound base64 windowBytes) (streamId : JsString) :
    Sound base64 windowBytes ⟨inbound.mux.handleOpen streamId, inbound.journal⟩ := by
  unfold StreamMux.handleOpen
  cases unused : inbound.mux.streams.get streamId with
  | some index => exact sound
  | none =>
      have stored : ∀ index, (inbound.mux.put inbound.mux.fresh
          (.new streamId inbound.mux.chunkBytes inbound.mux.windowBytes)).store index =
            if index = inbound.mux.fresh then
              .new streamId inbound.mux.chunkBytes inbound.mux.windowBytes
            else inbound.mux.store index := fun index => Function.update_apply _ _ _ _
      refine ⟨sound.window, sound.unique.set _ _, ?_, ?_, ?_⟩
      · intro other index listed
        dsimp only
        rw [stored]
        rcases Table.holds_set.mp listed with ⟨rfl, rfl⟩ | ⟨_, old⟩
        · rw [if_pos rfl]
          exact ⟨Nat.lt_succ_self _, rfl⟩
        · obtain ⟨below, name⟩ := sound.named other index old
          rw [if_neg (Nat.ne_of_lt below)]
          exact ⟨Nat.lt_succ_of_lt below, name⟩
      · exact fun index above => sound.unmade index (Nat.le_of_succ_le above)
      · intro index
        dsimp only
        rw [stored]
        split_ifs with newest
        · have none : inbound.frames index = [] := by
            rw [frames, sound.unmade index (Nat.le_of_eq newest.symm)]
            rfl
          refine (congrArg (fun frames => StreamKept base64 _ frames _ _) none).mpr ?_
          exact .new _ _ _
        · refine (sound.kept index).congr rfl id fun registered => ?_
          unfold Registered at registered
          dsimp only at registered
          rw [stored, if_neg newest] at registered
          rcases Table.holds_set.mp registered with ⟨_, newer⟩ | ⟨_, old⟩
          · exact absurd newer newest
          · exact old

/-- The streams are all unregistered, and open loopbacks are closed. -/
theorem Sound.disposeAll (sound : inbound.Sound base64 windowBytes) (reason : JsString) :
    Sound base64 windowBytes ⟨inbound.mux.disposeAll reason, inbound.journal⟩ := by
  refine ⟨sound.window, Table.unique_empty, nofun, sound.unmade, fun index => ?_⟩
  unfold StreamMux.disposeAll
  dsimp only
  split_ifs
  · exact (sound.kept index).congr (receiving_closeIfOpen _ _ _) connecting_of_closeIfOpen nofun
  · exact (sound.kept index).congr rfl id nofun

/-- Another stream is torn down. -/
theorem Sound.tearDown (sound : inbound.Sound base64 windowBytes) (streamId : JsString) (code : Nat)
    (reason : JsString) :
    Sound base64 windowBytes ⟨inbound.mux.tearDown streamId code reason, inbound.journal⟩ := by
  unfold StreamMux.tearDown
  cases found : inbound.mux.streams.get streamId with
  | none => exact sound
  | some index =>
      exact sound.still (changes_send (changes_delete _ _ _ _) _) (sound.index_lt found).1
        (receiving_closeIfOpen _ _ _) connecting_of_closeIfOpen

theorem not_registered_of_delete {streamId : JsString} (same : stream.codec.streamId = streamId)
    {mux : StreamMux} {messages : List MuxMessage} :
    ¬ StreamMux.Registered (send { mux.put index stream with
      streams := mux.streams.delete streamId } messages) index := by
  intro registered
  obtain ⟨different, _⟩ := Table.holds_delete.mp registered
  refine different ?_
  have stored : (mux.put index stream).store index = stream := Function.update_self _ _ _
  dsimp only [send]
  rw [stored, same]

theorem loopbackOpened_all {mux : StreamMux} {delivers : Nat}
    (all : (mux.store index).pendingInbound.length ≤ delivers) :
    mux.loopbackOpened index delivers = mux.put index
      { MuxStream.writeLoopback { (mux.store index).become .opened with loopbackOpen := true }
          ((mux.store index).pendingInbound.take delivers) with
        pendingInbound := []
        pendingInboundBytes := 0 } :=
  if_pos all

theorem loopbackOpened_some {mux : StreamMux} {delivers : Nat}
    (some : ¬(mux.store index).pendingInbound.length ≤ delivers) :
    mux.loopbackOpened index delivers = (mux.put index
      (MuxStream.writeLoopback { (mux.store index).become .opened with loopbackOpen := true }
        ((mux.store index).pendingInbound.take delivers))).tearDown
          (mux.store index).codec.streamId streamRetrySafe (units "loopback delivery failed") :=
  if_neg some

/-- The loopback of a stream opens. -/
theorem Sound.loopbackOpened (sound : inbound.Sound base64 windowBytes)
    (made : index < inbound.mux.fresh)
    (connecting : (inbound.mux.store index).loopback.readyState = .connecting) (delivers : Nat) :
    Sound base64 windowBytes ⟨inbound.mux.loopbackOpened index delivers, inbound.journal⟩ := by
  have kept := sound.kept index
  by_cases all : (inbound.mux.store index).pendingInbound.length ≤ delivers
  · rw [loopbackOpened_all all, List.take_of_length_le all]
    refine sound.change (changes_put _ _ _) made rfl (fun _ _ => rfl) ?_
    refine (kept.drained connecting).congr rfl id fun registered => ?_
    have listed := (changes_put _ _ _).streams.holds registered
    rwa [store_of_changes (changes_put _ _ _), if_pos rfl] at listed
  · rw [loopbackOpened_some all]
    have halted := kept.halted connecting delivers
    by_cases own : inbound.mux.streams.get (inbound.mux.store index).codec.streamId = some index
    · rw [tearDown_put own]
      refine sound.change (changes_send (changes_delete _ _ _ _) _) made rfl (fun _ _ => rfl) ?_
      refine halted.congr (receiving_closeIfOpen _ _ _) connecting_of_closeIfOpen fun registered => ?_
      exact not_registered_of_delete rfl registered
    · refine @Sound.tearDown _ _ ⟨inbound.mux.put index _, inbound.journal⟩ ?_ _ _ _
      refine sound.change (changes_put _ _ _) made rfl (fun _ _ => rfl) ?_
      refine halted.congr rfl id fun registered => own (sound.unique.get_eq ?_)
      unfold Registered at registered
      rwa [store_of_changes (changes_put _ _ _), if_pos rfl] at registered

theorem journalAfter_handleData {frame : TunnelWebSocketDataEnvelope}
    (found : inbound.mux.streams.get frame.streamId = some index) (delivers : Bool) :
    inbound.journalAfter (.handleData frame delivers) next =
      Function.update inbound.journal index (inbound.journal index ++
        [(frame, decide (.dataAck frame.streamId frame.seq ∈ inbound.mux.sentSince next))]) := by
  unfold journalAfter
  dsimp only
  rw [found]

/-- **Steps** keep what the streams took. -/
theorem Sound.step {later : InboundMux} {label : MuxLabel}
    (sound : inbound.Sound base64 windowBytes)
    (stepped : (inboundMachine base64).step inbound label = some later) :
    later.Sound base64 windowBytes := by
  obtain ⟨next, moved, rfl⟩ := Option.map_eq_some_iff.mp stepped
  cases label with
  | handleOpen streamId =>
      obtain rfl := Option.some.inj moved
      exact sound.handleOpen streamId
  | handleData frame delivers =>
      obtain rfl := Option.some.inj moved
      cases found : inbound.mux.streams.get frame.streamId with
      | none =>
          have same : inbound.mux.handleData base64 frame delivers = inbound.mux := by
            unfold StreamMux.handleData
            rw [found]
          have none : inbound.journalAfter (.handleData frame delivers) inbound.mux =
              inbound.journal := by
            unfold journalAfter
            dsimp only
            rw [found]
          rw [same, none]
          exact sound
      | some index =>
          obtain ⟨made, name⟩ := sound.index_lt found
          have received := @Sound.handleData _ _ _ _ sound frame found delivers
          generalize inbound.mux.handleData base64 frame delivers = after at received ⊢
          rw [journalAfter_handleData found]
          have others : ∀ entries other, other ≠ index →
              Function.update inbound.journal index entries other = inbound.journal other :=
            fun _ _ different => Function.update_of_ne different _ _
          have own : ∀ flag : Bool, (Function.update inbound.journal index
              (inbound.journal index ++ [(frame, flag)]) index).map Prod.fst =
                inbound.frames index ++ [frame] := by
            intro flag
            rw [Function.update_self, List.map_append]
            rfl
          cases received with
          | taken stream same kept =>
              refine sound.change (changes_send (changes_put _ _ _) _) made (same.trans name.symm)
                (others _) ?_
              rw [own]
              exact kept.congr rfl id fun _ => trivial
          | removed stream code reason same kept =>
              refine sound.change (changes_send (changes_delete _ _ _ _) _) made
                (same.trans name.symm) (others _) ?_
              rw [own]
              exact kept.congr rfl id fun registered => not_registered_of_delete same registered
  | handleDataAck streamId seq =>
      obtain rfl := Option.some.inj moved
      unfold handleDataAck
      cases found : inbound.mux.streams.get streamId with
      | none => exact sound
      | some index =>
          refine sound.still (changes_send (changes_put _ _ _) _) (sound.index_lt found).1 ?_ id
          refine (receiving_flushOutbound _).trans ?_
          unfold MuxStream.receiving
          dsimp only
          rw [DocumentStreamCodec.receiving_onAck]
  | handleClose streamId reason =>
      obtain rfl := Option.some.inj moved
      unfold handleClose
      cases found : inbound.mux.streams.get streamId with
      | none => exact sound
      | some index =>
          exact sound.still (changes_delete _ _ _ _) (sound.index_lt found).1
            (receiving_closeIfOpen _ _ _) connecting_of_closeIfOpen
  | disposeAll reason =>
      obtain rfl := Option.some.inj moved
      exact sound.disposeAll reason
  | loopbackOpened index delivers =>
      simp only [muxMachine] at moved
      split_ifs at moved with enabled
      obtain rfl := Option.some.inj moved
      exact sound.loopbackOpened enabled.1 enabled.2 delivers
  | loopbackMessage index data =>
      simp only [muxMachine] at moved
      split_ifs at moved with made
      obtain rfl := Option.some.inj moved
      cases data with
      | none => exact sound
      | some bytes =>
          refine sound.still (changes_send (changes_put _ _ _) _) made ?_ id
          refine (receiving_flushOutbound _).trans ?_
          unfold MuxStream.receiving
          dsimp only
          rw [DocumentStreamCodec.receiving_enqueue]
  | loopbackClosed index code reason =>
      simp only [muxMachine] at moved
      split_ifs at moved with made
      obtain rfl := Option.some.inj moved
      unfold loopbackClosed
      dsimp only
      split
      · refine sound.still (changes_put _ _ _) made rfl ?_
        intro opened
        cases opened
      · refine sound.still (changes_send (changes_delete _ _ _ _) _) made rfl ?_
        intro opened
        cases opened

/-- The messages of a stream are written in order, the acknowledged ones are written or wait as
long as the stream is not removed, and what waits fits into the window. -/
structure Delivered (base64 : Base64) (windowBytes : Option Int) (inbound : InboundMux)
    (index : Nat) : Prop where
  ordered : (inbound.mux.store index).loopback.received <+:
    frameMessages base64 (inbound.frames index)
  acknowledged : ∀ position frame message, (inbound.journal index)[position]? = some (frame, true) →
    (frameOutputs base64 (inbound.frames index))[position]? = some (some message) →
      (inbound.mux.store index).loopback.received[((frameOutputs base64
          (inbound.frames index)).take position).reduceOption.length]? = some message ∨
        message ∈ (inbound.mux.store index).pendingInbound ∨ inbound.mux.Removed index
  bounded : (((inbound.mux.store index).pendingInbound.map List.length).sum : Int) ≤
    max 0 (windowBytes.getD tunnelWsDataWindowBytes)

/-- What a step answers: it acknowledges only the frame that arrives, when all messages up to its
own are written or wait; and when the loopback does not take all that waits, the stream is
removed, and its peer told so. -/
structure Answers (base64 : Base64) (inbound : InboundMux) (label : MuxLabel) (next : InboundMux) :
    Prop where
  acknowledges : ∀ streamId seq, .dataAck streamId seq ∈ inbound.mux.sentSince next.mux →
    ∃ frame delivers index, label = .handleData frame delivers ∧ frame.streamId = streamId ∧
      frame.seq = seq ∧ inbound.mux.streams.get streamId = some index ∧
      next.frames index = inbound.frames index ++ [frame] ∧
      (frameOutputs base64 (next.frames index)).length = (next.frames index).length ∧
      frameMessages base64 (next.frames index) =
        (next.mux.store index).loopback.received ++ (next.mux.store index).pendingInbound
  removes : ∀ index delivers, label = .loopbackOpened index delivers →
    delivers < (inbound.mux.store index).pendingInbound.length →
      next.mux.Removed index ∧ (¬inbound.mux.Removed index →
        .close (inbound.mux.store index).codec.streamId streamRetrySafe
          (units "loopback delivery failed") ∈ inbound.mux.sentSince next.mux)

theorem reduceOption_getElem {outputs : List (Option Bytes)} {position : Nat} {message : Bytes}
    (found : outputs[position]? = some (some message)) :
    outputs.reduceOption[(outputs.take position).reduceOption.length]? = some message := by
  obtain ⟨below, same⟩ := List.getElem?_eq_some_iff.mp found
  have split : outputs = outputs.take position ++ some message :: outputs.drop (position + 1) := by
    rw [← same, List.getElem_cons_drop, List.take_append_drop]
  have messages := congrArg List.reduceOption split
  rw [List.reduceOption_append, List.reduceOption_cons_of_some] at messages
  rw [messages, List.getElem?_append_right (Nat.le_refl _), Nat.sub_self, List.getElem?_cons_zero]

theorem Sound.delivered (sound : inbound.Sound base64 windowBytes) (index : Nat) :
    inbound.Delivered base64 windowBytes index := by
  have kept := sound.kept index
  refine ⟨kept.front, ?_, ?_⟩
  · intro position frame message taken output
    by_cases registered : inbound.mux.Registered index
    · have found := reduceOption_getElem output
      rw [show (frameOutputs base64 (inbound.frames index)).reduceOption = _ from
        kept.messages registered] at found
      by_cases written : ((frameOutputs base64 (inbound.frames index)).take
          position).reduceOption.length < (inbound.mux.store index).loopback.received.length
      · rw [List.getElem?_append_left written] at found
        exact .inl found
      · rw [List.getElem?_append_right (Nat.le_of_not_lt written)] at found
        exact .inr (.inl (List.mem_of_getElem? found))
    · refine .inr (.inr ((removed_iff sound.unique).mpr ⟨?_, registered⟩))
      by_contra unmade
      rw [sound.unmade index (Nat.le_of_not_lt unmade)] at taken
      cases taken
  · rw [← kept.bytes]
    exact kept.bounded

theorem sentSince_eq {mux : StreamMux} {messages : List MuxMessage}
    (sent : next.sent = mux.sent ++ messages) : mux.sentSince next = messages := by
  rw [sentSince, sent, List.drop_left]

theorem dataAck_not_mem_map (streamId : JsString) (seq : Nat)
    (frames : List TunnelWebSocketDataEnvelope) :
    MuxMessage.dataAck streamId seq ∉ frames.map .data := by
  intro member
  obtain ⟨frame, _, same⟩ := List.mem_map.mp member
  cases same

/-- A torn down stream is answered with a close. -/
theorem dataAck_not_mem_tearDown {mux : StreamMux} (same : next.sent = mux.sent)
    (streamId other : JsString) (seq code : Nat) (reason : JsString) :
    MuxMessage.dataAck other seq ∉ mux.sentSince (next.tearDown streamId code reason) := by
  unfold StreamMux.tearDown
  split
  · rw [sentSince_eq (same.trans (List.append_nil _).symm)]
    exact List.not_mem_nil
  · rw [@sentSince_eq _ mux [.close streamId code reason] (congrArg (· ++ _) same)]
    exact fun member => nomatch List.mem_singleton.mp member

/-- Only the step in which a frame arrives acknowledges, and only this frame. -/
theorem Sound.acknowledges (sound : inbound.Sound base64 windowBytes) {label : MuxLabel}
    (moved : (muxMachine base64).step inbound.mux label = some next) {streamId : JsString} {seq : Nat}
    (sent : .dataAck streamId seq ∈ inbound.mux.sentSince next) :
    ∃ frame delivers index, label = .handleData frame delivers ∧ frame.streamId = streamId ∧
      frame.seq = seq ∧ inbound.mux.streams.get streamId = some index ∧
      ∃ stream, next.store index = stream ∧ StreamKept base64
        (windowBytes.getD tunnelWsDataWindowBytes) (inbound.frames index ++ [frame]) True stream := by
  have others : ∀ {next : StreamMux} {messages : List MuxMessage},
      next.sent = inbound.mux.sent ++ messages → .dataAck streamId seq ∉ messages →
        .dataAck streamId seq ∉ inbound.mux.sentSince next := by
    intro next messages same other
    rwa [sentSince_eq same]
  have none : ∀ {next : StreamMux}, next.sent = inbound.mux.sent →
      .dataAck streamId seq ∉ inbound.mux.sentSince next :=
    fun same => others (same.trans (List.append_nil _).symm) List.not_mem_nil
  cases label with
  | handleOpen other =>
      obtain rfl := Option.some.inj moved
      refine absurd sent (none ?_)
      unfold StreamMux.handleOpen
      split <;> rfl
  | handleData frame delivers =>
      obtain rfl := Option.some.inj moved
      cases found : inbound.mux.streams.get frame.streamId with
      | none =>
          refine absurd sent (none ?_)
          unfold StreamMux.handleData
          rw [found]
      | some index =>
          have received := @Sound.handleData _ _ _ _ sound frame found delivers
          generalize inbound.mux.handleData base64 frame delivers = after at received sent ⊢
          cases received with
          | taken stream same kept =>
              rw [@sentSince_eq _ inbound.mux [.dataAck frame.streamId frame.seq] rfl] at sent
              cases List.mem_singleton.mp sent
              exact ⟨frame, delivers, index, rfl, rfl, rfl, found, stream,
                Function.update_self _ _ _, kept⟩
          | removed stream code reason same kept =>
              exact absurd sent (others rfl fun member => by cases List.mem_singleton.mp member)
  | handleDataAck other number =>
      obtain rfl := Option.some.inj moved
      unfold handleDataAck at sent
      split at sent
      · exact absurd sent (none rfl)
      · exact absurd sent (others rfl (dataAck_not_mem_map _ _ _))
  | handleClose other reason =>
      obtain rfl := Option.some.inj moved
      refine absurd sent (none ?_)
      unfold handleClose
      split <;> rfl
  | disposeAll reason =>
      obtain rfl := Option.some.inj moved
      exact absurd sent (none rfl)
  | loopbackOpened index delivers =>
      simp only [muxMachine] at moved
      split_ifs at moved
      obtain rfl := Option.some.inj moved
      by_cases all : (inbound.mux.store index).pendingInbound.length ≤ delivers
      · rw [loopbackOpened_all all] at sent
        exact absurd sent (none rfl)
      · rw [loopbackOpened_some all] at sent
        exact absurd sent
          (@dataAck_not_mem_tearDown (inbound.mux.put index _) inbound.mux rfl _ _ _ _ _)
  | loopbackMessage index data =>
      simp only [muxMachine] at moved
      split_ifs at moved
      obtain rfl := Option.some.inj moved
      cases data with
      | none => exact absurd sent (none rfl)
      | some bytes =>
          exact absurd sent (others rfl (dataAck_not_mem_map _ _ _))
  | loopbackClosed index code reason =>
      simp only [muxMachine] at moved
      split_ifs at moved
      obtain rfl := Option.some.inj moved
      unfold loopbackClosed at sent
      dsimp only at sent
      split at sent
      · exact absurd sent (none rfl)
      · exact absurd sent (others rfl fun member => by cases List.mem_singleton.mp member)

theorem tearDown_spec (mux : StreamMux) (streamId : JsString) (code : Nat) (reason : JsString) :
    (mux.tearDown streamId code reason).streams.Within mux.streams ∧
      (mux.tearDown streamId code reason).fresh = mux.fresh ∧
      ∀ index, ((mux.tearDown streamId code reason).store index).codec =
        (mux.store index).codec := by
  unfold StreamMux.tearDown
  split
  · exact ⟨.refl _, rfl, fun _ => rfl⟩
  · rename_i index _
    refine ⟨Table.within_delete _ _, rfl, fun other => ?_⟩
    dsimp only [send, put]
    rw [Function.update_apply]
    split_ifs with own
    · rw [own]
    · rfl

/-- When the loopback does not take all that waits, the stream is removed. -/
theorem Sound.removes (sound : inbound.Sound base64 windowBytes) (made : index < inbound.mux.fresh)
    {delivers : Nat} (left : ¬(inbound.mux.store index).pendingInbound.length ≤ delivers) :
    (inbound.mux.loopbackOpened index delivers).Removed index ∧ (¬inbound.mux.Removed index →
      .close (inbound.mux.store index).codec.streamId streamRetrySafe
        (units "loopback delivery failed") ∈
          inbound.mux.sentSince (inbound.mux.loopbackOpened index delivers)) := by
  rw [loopbackOpened_some left]
  by_cases own : inbound.mux.streams.get (inbound.mux.store index).codec.streamId = some index
  · rw [tearDown_put own]
    refine ⟨⟨made, fun found => not_registered_of_delete rfl (Table.holds_of_get found)⟩, ?_⟩
    intro _
    rw [@sentSince_eq _ inbound.mux [_] rfl]
    exact List.mem_singleton_self _
  · refine ⟨⟨?_, fun found => own ?_⟩, fun present => absurd ⟨made, own⟩ present⟩
    · rwa [(tearDown_spec _ _ _ _).2.1]
    · have held := (tearDown_spec _ _ _ _).1.holds (Table.holds_of_get found)
      rw [(tearDown_spec _ _ _ _).2.2, store_of_changes (changes_put _ _ _), if_pos rfl] at held
      exact sound.unique.get_eq held

/-- **Every step** answers as it should. -/
theorem Sound.answers (sound : inbound.Sound base64 windowBytes) {label : MuxLabel}
    {later : InboundMux} (stepped : (inboundMachine base64).step inbound label = some later) :
    inbound.Answers base64 label later := by
  obtain ⟨next, moved, rfl⟩ := Option.map_eq_some_iff.mp stepped
  constructor
  · intro streamId seq sent
    obtain ⟨frame, delivers, index, rfl, rfl, rfl, found, stream, stored, kept⟩ :=
      sound.acknowledges moved sent
    have frames : InboundMux.frames ⟨next, inbound.journalAfter (.handleData frame delivers) next⟩
        index = inbound.frames index ++ [frame] := by
      rw [InboundMux.frames]
      dsimp only
      rw [journalAfter_handleData found, Function.update_self, List.map_append]
      rfl
    refine ⟨frame, delivers, index, rfl, rfl, rfl, found, frames, ?_, ?_⟩
    · rw [frames, frameOutputs, takeWhile_readable (kept.readable trivial),
        Joiner.length_outputs_run (kept.joined trivial), List.length_map]
    · rw [frames, kept.messages trivial]
      dsimp only
      rw [stored]
  · rintro index delivers rfl some
    simp only [muxMachine] at moved
    split_ifs at moved with enabled
    obtain rfl := Option.some.inj moved
    exact sound.removes enabled.1 (Nat.not_le_of_lt some)

end InboundMux

/-- **Inbound messages.** In every run, what a stream writes to its loopback is the front of the
messages that its frames complete; an acknowledged message is written, or waits within the window,
or the stream is removed; and a frame is acknowledged only in the step that takes its message. -/
theorem inbound_delivered {base64 : Base64} {chunkBytes : Option Nat} {windowBytes : Option Int}
    {labels : List MuxLabel} {inbound : InboundMux}
    (run : (inboundMachine base64).Run (fun _ _ => True)
      ⟨.new chunkBytes windowBytes, fun _ => []⟩ labels inbound) :
    (∀ index, inbound.Delivered base64 windowBytes index) ∧
      ∀ label next, (inboundMachine base64).step inbound label = some next →
        inbound.Answers base64 label next := by
  have start : InboundMux.Sound base64 windowBytes ⟨.new chunkBytes windowBytes, fun _ => []⟩ :=
    ⟨rfl, Table.unique_empty, nofun, fun _ _ => rfl, fun _ => .new _ _ _⟩
  have sound : inbound.Sound base64 windowBytes :=
    run.invariant (fun _ _ _ _ stepped sound => sound.step stepped) start
  exact ⟨sound.delivered, fun label next stepped => sound.answers stepped⟩

/-- Two frames of a message that waits for the loopback, one that arrives when it is open, and one
that is no base64. -/
theorem inbound_delivered_both :
    ∃ inbound, (inboundMachine platformBase64).Run (fun _ _ => True)
        ⟨.new none (some 4), fun _ => []⟩
        [.handleOpen [115], .handleData ⟨[115], 0, units "AQI=", false⟩ true,
          .handleData ⟨[115], 1, units "Aw==", true⟩ true, .loopbackOpened 0 1,
          .handleData ⟨[115], 2, units "BA==", true⟩ true,
          .handleData ⟨[115], 3, units "!", true⟩ true] inbound ∧
      (inbound.mux.store 0).loopback.received = [[1, 2, 3], [4]] ∧
      (inbound.journal 0).map Prod.snd = [true, true, true, false] ∧
      inbound.mux.sent.getLast? = some (.close [115] oversizedWsFrame invalidBase64) ∧
      inbound.Delivered platformBase64 (some 4) 0 := by
  obtain ⟨inbound, run, seen⟩ : ∃ inbound, (inboundMachine platformBase64).Run (fun _ _ => True)
        ⟨.new none (some 4), fun _ => []⟩
        [.handleOpen [115], .handleData ⟨[115], 0, units "AQI=", false⟩ true,
          .handleData ⟨[115], 1, units "Aw==", true⟩ true, .loopbackOpened 0 1,
          .handleData ⟨[115], 2, units "BA==", true⟩ true,
          .handleData ⟨[115], 3, units "!", true⟩ true] inbound ∧
      ((inbound.mux.store 0).loopback.received, (inbound.journal 0).map Prod.snd,
        inbound.mux.sent.getLast?) =
        ([[1, 2, 3], [4]], [true, true, true, false],
          some (.close [115] oversizedWsFrame invalidBase64)) :=
    Machine.evaluate_view (by decide +kernel)
  obtain ⟨received, rest⟩ := Prod.mk.inj seen
  obtain ⟨acknowledged, closed⟩ := Prod.mk.inj rest
  exact ⟨inbound, run, received, acknowledged, closed, (inbound_delivered run).1 0⟩

/-- A message waits and is acknowledged; the loopback opens and refuses it. -/
theorem acknowledged_then_dropped :
    ∃ inbound, (inboundMachine platformBase64).Run (fun _ _ => True)
        ⟨.new none none, fun _ => []⟩
        [.handleOpen [115], .handleData ⟨[115], 0, units "Bw==", true⟩ true,
          .loopbackOpened 0 0] inbound ∧
      inbound.mux.sent = [.dataAck [115] 0,
        .close [115] streamRetrySafe (units "loopback delivery failed")] ∧
      frameMessages platformBase64 (inbound.frames 0) = [[7]] ∧
      (inbound.mux.store 0).loopback.received = [] := by
  obtain ⟨inbound, run, seen⟩ : ∃ inbound, (inboundMachine platformBase64).Run (fun _ _ => True)
        ⟨.new none none, fun _ => []⟩
        [.handleOpen [115], .handleData ⟨[115], 0, units "Bw==", true⟩ true,
          .loopbackOpened 0 0] inbound ∧
      (inbound.mux.sent, frameMessages platformBase64 (inbound.frames 0),
        (inbound.mux.store 0).loopback.received) =
        ([.dataAck [115] 0, .close [115] streamRetrySafe (units "loopback delivery failed")], [[7]],
          []) := Machine.evaluate_view (by decide +kernel)
  obtain ⟨sent, rest⟩ := Prod.mk.inj seen
  obtain ⟨messages, received⟩ := Prod.mk.inj rest
  exact ⟨inbound, run, sent, messages, received⟩

end Kb1Daemon
