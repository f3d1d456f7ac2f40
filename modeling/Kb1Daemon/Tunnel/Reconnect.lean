import Kb1Daemon.Tunnel.Mux

/-! # Document streams across a control reconnect

The streams of the tunnel client outlive its control socket: what they send while the
socket is not open is dropped, and the peer joins the frames that arrive without looking at
their numbers. The peer returns only messages of the loopback as long as no frame arrives
after a lost one inside a message (`no_spliced_messages`); a message whose end is lost is
joined with the next one otherwise (`spliced_message`).
-/

namespace Kb1Daemon

/-- A document stream with the codec of its peer. -/
structure DocumentStream where
  stream : MuxStream
  /-- The messages of the loopback. -/
  emitted : List Bytes
  peer : DocumentStreamCodec
  /-- The messages the peer's codec has returned. -/
  returned : List Bytes
  /-- The last frame was dropped. -/
  lost : Bool
  /-- The last frame was not the last one of its message. -/
  sending : Bool
  /-- The last frame that arrived was not the last one of its message. -/
  receiving : Bool

namespace DocumentStream

variable (base64 : Base64)

/-- A stream whose envelope the peer has sent. -/
def new (streamId : JsString) (chunkBytes : Option Nat) (windowBytes : Option Int) :
    DocumentStream where
  stream := .new streamId chunkBytes windowBytes
  emitted := []
  peer := .new streamId (chunkBytes.getD tunnelWsDataChunkBytes)
    (windowBytes.getD tunnelWsDataWindowBytes) tunnelWsDataMessageByteLimit
  returned := []
  lost := false
  sending := false
  receiving := false

/-- The peer's codec takes the frames that arrive; a frame it refuses returns nothing. -/
def feed (document : DocumentStream) : List TunnelWebSocketDataEnvelope → DocumentStream
  | [] => document
  | frame :: rest =>
      match document.peer.ingest base64 frame with
      | (peer, .error _) => feed { document with peer := peer } rest
      | (peer, .ok message) =>
          feed { document with
            peer := peer
            returned := document.returned ++ message.toList } rest

/-- `sendControlJson` for frames of a stream: they arrive, or are dropped. -/
def sendControlJson (document : DocumentStream) (controlOpen : Bool)
    (frames : List TunnelWebSocketDataEnvelope) : DocumentStream :=
  match frames.getLast? with
  | none => document
  | some last =>
      let sent := { document with lost := !controlOpen, sending := !last.fin }
      if controlOpen then { sent.feed base64 frames with receiving := !last.fin } else sent

/-- A message of the loopback. -/
def loopbackMessage (document : DocumentStream) (controlOpen : Bool) (bytes : Bytes) :
    DocumentStream :=
  let flushed := document.stream.loopbackMessage base64 bytes
  { document with
    stream := flushed.1
    emitted := document.emitted ++ [bytes] }.sendControlJson base64 controlOpen flushed.2

/-- An acknowledgement of the peer. -/
def dataAck (document : DocumentStream) (controlOpen : Bool) (seq : Nat) : DocumentStream :=
  let flushed := document.stream.dataAck seq
  { document with stream := flushed.1 }.sendControlJson base64 controlOpen flushed.2

end DocumentStream

/-- The document streams of a tunnel client. -/
structure DocumentStreams where
  controlOpen : Bool
  streams : JsString → Option DocumentStream

inductive ReconnectLabel where
  | controlOpens
  | controlCloses
  /-- The relay opens a stream. -/
  | wsOpen (streamId : JsString)
  | loopbackMessage (streamId : JsString) (bytes : Bytes)
  | dataAck (streamId : JsString) (seq : Nat)

/-- The machine of the document streams, which stay registered. -/
def reconnectMachine (base64 : Base64) (chunkBytes : Option Nat) (windowBytes : Option Int) :
    Machine DocumentStreams ReconnectLabel where
  step client label :=
    match label with
    | .controlOpens => some { client with controlOpen := true }
    | .controlCloses => some { client with controlOpen := false }
    | .wsOpen streamId =>
        match client.streams streamId with
        | some _ => some client
        | none => some { client with
            streams := Function.update client.streams streamId
              (some (.new streamId chunkBytes windowBytes)) }
    | .loopbackMessage streamId bytes =>
        (client.streams streamId).map fun document => { client with
          streams := Function.update client.streams streamId
            (some (document.loopbackMessage base64 client.controlOpen bytes)) }
    | .dataAck streamId seq =>
        (client.streams streamId).map fun document => { client with
          streams := Function.update client.streams streamId
            (some (document.dataAck base64 client.controlOpen seq)) }

/-- Frames of the stream would arrive after a dropped one, inside a message: of the
stream, or of its peer. -/
def DocumentStream.Torn (document : DocumentStream) : Prop :=
  document.lost = true ∧ (document.sending = true ∨ document.receiving = true)

instance DocumentStream.decidableTorn (document : DocumentStream) : Decidable document.Torn := by
  unfold DocumentStream.Torn
  infer_instance

/-- The step sends frames of a torn stream over an open control socket, or the loopback's
message is larger than the peer accepts. -/
def DocumentStreams.Splices (base64 : Base64) (client : DocumentStreams) :
    ReconnectLabel → Prop
  | .loopbackMessage streamId bytes => tunnelWsDataMessageByteLimit < bytes.length ∨
      ∃ document ∈ client.streams streamId, client.controlOpen = true ∧ document.Torn ∧
        (document.stream.loopbackMessage base64 bytes).2 ≠ []
  | .dataAck streamId seq =>
      ∃ document ∈ client.streams streamId, client.controlOpen = true ∧ document.Torn ∧
        (document.stream.dataAck seq).2 ≠ []
  | _ => False

instance DocumentStreams.decidableSplices (base64 : Base64) (client : DocumentStreams)
    (label : ReconnectLabel) : Decidable (client.Splices base64 label) := by
  unfold DocumentStreams.Splices
  split <;> infer_instance

namespace DocumentStream

variable {base64 : Base64} {size : Nat}

/-- Feeding frames that are all taken. -/
theorem feed_eq {frames : List TunnelWebSocketDataEnvelope} {document : DocumentStream}
    {next : DocumentStreamCodec} {messages : List Bytes}
    (fed : document.peer.ingestAll base64 frames = .ok (next, messages)) :
    document.feed base64 frames =
      { document with peer := next, returned := document.returned ++ messages } := by
  induction frames generalizing document messages with
  | nil =>
      cases fed
      rw [List.append_nil]
      rfl
  | cons frame rest ih =>
      unfold DocumentStreamCodec.ingestAll at fed
      unfold feed
      generalize document.peer.ingest base64 frame = ingested at fed
      obtain ⟨peer, outcome⟩ := ingested
      cases outcome with
      | error error => cases fed
      | ok message =>
          dsimp only at fed
          cases more : peer.ingestAll base64 rest with
          | error error =>
              rw [more] at fed
              cases fed
          | ok after =>
              rw [more] at fed
              cases fed
              have later := @ih { document with
                peer := peer, returned := document.returned ++ message.toList } _ more
              dsimp only
              rw [later, List.append_assoc]

/-- The frames of a stream are the pieces of its messages, and as long as the stream is not
torn the peer has what was sent of the message that is being sent. -/
structure Joined (base64 : Base64) (size : Nat) (document : DocumentStream) : Prop where
  chunk : document.stream.codec.chunkBytes = size
  coded : document.stream.codec.Queues fun frame => frame.readable base64 = true
  counted : document.peer.Counted
  limit : document.peer.messageByteLimit = tunnelWsDataMessageByteLimit
  fits : ∀ message ∈ document.emitted, message.length ≤ tunnelWsDataMessageByteLimit
  returned : ∀ message ∈ document.returned, message ∈ document.emitted
  position : ∃ front unsent,
    Cutting size front (document.stream.codec.queued base64) unsent ∧
      (∀ message ∈ unsent, message ∈ document.emitted) ∧
      (document.sending = false → front = []) ∧
      (document.receiving = false → document.peer.inbound.flatten = []) ∧
      (document.lost = false → document.peer.inbound.flatten = front)

theorem joined_new (streamId : JsString) (chunkBytes : Option Nat) (windowBytes : Option Int) :
    (new streamId chunkBytes windowBytes).Joined base64
      (chunkBytes.getD tunnelWsDataChunkBytes) :=
  ⟨rfl, nofun, rfl, rfl, nofun, nofun, [], [], .done, nofun, fun _ => rfl, fun _ => rfl, fun _ => rfl⟩

/-- Frames that leave the queue arrive or are dropped. -/
theorem Joined.send {document : DocumentStream} (positive : 0 < size)
    (joined : document.Joined base64 size) {stream : MuxStream} {emitted : List Bytes}
    {frames : List TunnelWebSocketDataEnvelope} {controlOpen : Bool}
    (chunk : stream.codec.chunkBytes = size)
    (coded : stream.codec.Queues fun frame => frame.readable base64 = true)
    (readable : ∀ frame ∈ frames, frame.readable base64 = true)
    (fits : ∀ message ∈ emitted, message.length ≤ tunnelWsDataMessageByteLimit)
    (grown : ∀ message ∈ document.emitted, message ∈ emitted)
    (whole : controlOpen = true → frames ≠ [] → ¬ document.Torn)
    (position : ∀ front unsent,
      Cutting size front (document.stream.codec.queued base64) unsent →
      (∀ message ∈ unsent, message ∈ document.emitted) → ∃ more,
        Cutting size front (frames.map (DocumentStreamCodec.piece base64) ++
          stream.codec.queued base64) more ∧ ∀ message ∈ more, message ∈ emitted) :
    ({ document with stream := stream, emitted := emitted }.sendControlJson base64 controlOpen
      frames).Joined base64 size := by
  obtain ⟨front, unsent, cutting, among, sent, received, held⟩ := joined.position
  obtain ⟨more, cutting, among⟩ := position front unsent cutting among
  obtain ⟨next, past, later, split, left, still, ends, joins⟩ := cutting.take positive
  subst split
  have returned : ∀ message ∈ document.returned, message ∈ emitted :=
    fun message member => grown message (joined.returned message member)
  have rest : ∀ message ∈ later, message ∈ emitted :=
    fun message member => among message (List.mem_append_right _ member)
  cases found : frames.getLast? with
  | none =>
      have none : frames = [] := List.getLast?_eq_none_iff.mp found
      rw [sendControlJson, found]
      rw [still (by rw [none, List.map_nil])] at left
      exact ⟨chunk, coded, joined.counted, joined.limit, fits, returned, front, later, left, rest, sent,
        received, held⟩
  | some last =>
      have final : last.fin = true → next = [] :=
        fun ended => ends (DocumentStreamCodec.piece base64 last) (by
          rw [List.getLast?_map, found, Option.map_some]) ended
      have some_ : frames ≠ [] := by
        rintro rfl
        cases found
      rw [sendControlJson, found]
      dsimp only
      cases controlOpen with
      | false =>
          refine ⟨chunk, coded, joined.counted, joined.limit, fits, returned, next, later, left, rest, ?_,
            received, nofun⟩
          intro ended
          exact final (by simpa using ended)
      | true =>
          have buffer : document.peer.inbound.flatten = front := by
            by_cases lost : document.lost = true
            · have calm := not_and.mp (whole rfl some_) lost
              obtain ⟨idle, quiet⟩ := not_or.mp calm
              rw [received (Bool.eq_false_iff.mpr quiet), sent (Bool.eq_false_iff.mpr idle)]
            · exact held (Bool.eq_false_iff.mpr lost)
          have state : document.peer.joiner = ⟨tunnelWsDataMessageByteLimit, front⟩ := by
            rw [DocumentStreamCodec.joiner, buffer, joined.limit]
          have ran := joins tunnelWsDataMessageByteLimit fun message member =>
            fits message (among message member)
          rw [← state] at ran
          obtain ⟨peer, fed, counted, same⟩ :=
            DocumentStreamCodec.ingestAll_spec base64 joined.counted readable ran
          have limit : peer.messageByteLimit = tunnelWsDataMessageByteLimit :=
            congrArg Joiner.limit same
          have flat : peer.inbound.flatten = next := congrArg Joiner.buffer same
          rw [if_pos rfl]
          rw [@feed_eq base64 frames { document with
            stream := stream, emitted := emitted, lost := !true, sending := !last.fin } peer past
            fed]
          refine ⟨chunk, coded, counted, limit, fits, ?_, next, later, left, rest, ?_, ?_, fun _ => flat⟩
          · intro message member
            rcases List.mem_append.mp member with old | new
            · exact returned message old
            · exact among message (List.mem_append_left _ new)
          · intro ended
            exact final (by simpa using ended)
          · intro ended
            exact flat.trans (final (by simpa using ended))

theorem Joined.loopbackMessage {document : DocumentStream} (positive : 0 < size)
    (joined : document.Joined base64 size) {bytes : Bytes} {controlOpen : Bool}
    (small : bytes.length ≤ tunnelWsDataMessageByteLimit)
    (whole : controlOpen = true → (document.stream.loopbackMessage base64 bytes).2 ≠ [] →
      ¬ document.Torn) :
    (document.loopbackMessage base64 controlOpen bytes).Joined base64 size := by
  obtain ⟨queued, options⟩ := DocumentStreamCodec.enqueue_spec base64
    (show 0 < document.stream.codec.chunkBytes by rw [joined.chunk]; exact positive) bytes
  obtain ⟨pulled, kept⟩ := DocumentStreamCodec.pullSendable_spec base64
    (document.stream.codec.enqueue base64 bytes)
  have chunk := (congrArg (fun options => options.2.1) (kept.trans options)).trans joined.chunk
  obtain ⟨coded, readable⟩ := DocumentStreamCodec.queues_pullSendable
    (DocumentStreamCodec.queues_enqueue base64 joined.coded
      (DocumentStreamCodec.readable_made base64 _) bytes)
  refine joined.send positive chunk coded readable ?_ (fun message => List.mem_append_left _)
    whole ?_
  · intro message member
    rcases List.mem_append.mp member with old | new
    · exact joined.fits message old
    · rw [List.mem_singleton.mp new]
      exact small
  · intro front unsent cutting among
    refine ⟨unsent ++ [bytes], ?_, ?_⟩
    · have more := cutting.enqueue bytes
      rw [← joined.chunk, ← queued, ← pulled, joined.chunk] at more
      exact more
    · intro message member
      rcases List.mem_append.mp member with old | new
      · exact List.mem_append_left _ (among message old)
      · exact List.mem_append_right _ new

theorem Joined.dataAck {document : DocumentStream} (positive : 0 < size)
    (joined : document.Joined base64 size) {seq : Nat} {controlOpen : Bool}
    (whole : controlOpen = true → (document.stream.dataAck seq).2 ≠ [] → ¬ document.Torn) :
    (document.dataAck base64 controlOpen seq).Joined base64 size := by
  obtain ⟨queued, options⟩ := DocumentStreamCodec.onAck_spec base64 document.stream.codec seq
  obtain ⟨pulled, kept⟩ := DocumentStreamCodec.pullSendable_spec base64
    (document.stream.codec.onAck seq)
  have chunk := (congrArg (fun options => options.2.1) (kept.trans options)).trans joined.chunk
  obtain ⟨coded, readable⟩ := DocumentStreamCodec.queues_pullSendable
    (DocumentStreamCodec.queues_onAck joined.coded seq)
  refine joined.send positive chunk coded readable joined.fits (fun message => id) whole ?_
  intro front unsent cutting among
  rw [← queued, ← pulled] at cutting
  exact ⟨unsent, cutting, among⟩

end DocumentStream

/-- Every stream of the client is joined. -/
def DocumentStreams.Joined (base64 : Base64) (size : Nat) (client : DocumentStreams) : Prop :=
  ∀ streamId document, client.streams streamId = some document → document.Joined base64 size

theorem DocumentStreams.Joined.step {base64 : Base64} {chunkBytes : Option Nat}
    {windowBytes : Option Int} (positive : 1 ≤ chunkBytes.getD tunnelWsDataChunkBytes)
    {client next : DocumentStreams} {label : ReconnectLabel}
    (allowed : ¬ client.Splices base64 label)
    (stepped : (reconnectMachine base64 chunkBytes windowBytes).step client label = some next)
    (joined : client.Joined base64 (chunkBytes.getD tunnelWsDataChunkBytes)) :
    next.Joined base64 (chunkBytes.getD tunnelWsDataChunkBytes) := by
  have changed : ∀ {streamId : JsString} {document : DocumentStream},
      document.Joined base64 (chunkBytes.getD tunnelWsDataChunkBytes) →
      ∀ other found, Function.update client.streams streamId (some document) other = some found →
        found.Joined base64 (chunkBytes.getD tunnelWsDataChunkBytes) := by
    intro streamId document new other found
    by_cases same : other = streamId
    · rw [same, Function.update_self]
      rintro ⟨⟩
      exact new
    · rw [Function.update_of_ne same]
      exact joined other found
  cases label with
  | controlOpens =>
      obtain rfl := Option.some.inj stepped
      exact joined
  | controlCloses =>
      obtain rfl := Option.some.inj stepped
      exact joined
  | wsOpen streamId =>
      simp only [reconnectMachine] at stepped
      split at stepped
      · obtain rfl := Option.some.inj stepped
        exact joined
      · obtain rfl := Option.some.inj stepped
        exact changed (DocumentStream.joined_new streamId chunkBytes windowBytes)
  | loopbackMessage streamId bytes =>
      obtain ⟨document, listed, rfl⟩ := Option.map_eq_some_iff.mp stepped
      obtain ⟨small, untorn⟩ := not_or.mp allowed
      exact changed ((joined streamId document listed).loopbackMessage positive
        (Nat.not_lt.mp small) fun controlOpen sends torn =>
          untorn ⟨document, listed, controlOpen, torn, sends⟩)
  | dataAck streamId seq =>
      obtain ⟨document, listed, rfl⟩ := Option.map_eq_some_iff.mp stepped
      exact changed ((joined streamId document listed).dataAck positive
        fun controlOpen sends torn => allowed ⟨document, listed, controlOpen, torn, sends⟩)

/-- **No spliced messages.** In every run from a client without streams in which no frame
of a torn stream is sent over an open control socket and no message is too large for the
peer, every message a peer's codec returns is one of the loopback's messages. -/
theorem no_spliced_messages {base64 : Base64} {chunkBytes : Option Nat}
    {windowBytes : Option Int} {controlOpen : Bool} {labels : List ReconnectLabel}
    {target : DocumentStreams} (positive : 1 ≤ chunkBytes.getD tunnelWsDataChunkBytes)
    (run : (reconnectMachine base64 chunkBytes windowBytes).Run
      (fun client label => ¬ client.Splices base64 label) ⟨controlOpen, fun _ => none⟩ labels
      target) :
    ∀ streamId document, target.streams streamId = some document →
      ∀ message ∈ document.returned, message ∈ document.emitted := by
  have start : DocumentStreams.Joined base64 (chunkBytes.getD tunnelWsDataChunkBytes)
      ⟨controlOpen, fun _ => none⟩ := nofun
  have joined : target.Joined base64 (chunkBytes.getD tunnelWsDataChunkBytes) :=
    run.invariant (fun _ _ _ allowed stepped => DocumentStreams.Joined.step positive allowed
      stepped) start
  exact fun streamId document listed => (joined streamId document listed).returned

/-- The window holds back the second chunk of a message; it is released by an
acknowledgement that still arrives while the control socket is closing, and dropped. After
the reconnect the peer joins the first chunk with the next message. -/
theorem spliced_message :
    ∃ labels target document, (reconnectMachine platformBase64 (some 1) (some 2)).Run
        (fun _ _ => True) ⟨true, fun _ => none⟩ labels target ∧
      target.streams [115] = some document ∧
      ¬ ∀ message ∈ document.returned, message ∈ document.emitted := by
  obtain ⟨target, run, seen⟩ : ∃ target, (reconnectMachine platformBase64 (some 1) (some 2)).Run
      (fun _ _ => True) ⟨true, fun _ => none⟩
      [.wsOpen [115], .loopbackMessage [115] [9], .loopbackMessage [115] [1, 2], .controlCloses,
        .dataAck [115] 0, .controlOpens, .dataAck [115] 1, .loopbackMessage [115] [3]] target ∧
      (target.streams [115]).map (fun document => (document.returned, document.emitted)) =
        some ([[9], [1, 3]], [[9], [1, 2], [3]]) :=
    Machine.evaluate_view (by decide +kernel)
  obtain ⟨document, listed, same⟩ := Option.map_eq_some_iff.mp seen
  obtain ⟨returned, emitted⟩ := Prod.mk.inj same
  refine ⟨_, target, document, run, listed, ?_⟩
  rw [returned, emitted]
  decide

/-- Whole messages are dropped while the control socket is closed, and the next ones
arrive. -/
theorem no_spliced_messages_dropped :
    ∃ target document, (reconnectMachine platformBase64 (some 1) (some 4)).Run
        (fun client label => ¬ client.Splices platformBase64 label) ⟨true, fun _ => none⟩
        [.wsOpen [115], .loopbackMessage [115] [1, 2], .dataAck [115] 0, .dataAck [115] 1,
          .controlCloses, .loopbackMessage [115] [3, 4], .controlOpens,
          .loopbackMessage [115] [5, 6]] target ∧
      target.streams [115] = some document ∧ document.returned = [[1, 2], [5, 6]] ∧
      ∀ message ∈ document.returned, message ∈ document.emitted := by
  obtain ⟨target, run, seen⟩ : ∃ target, (reconnectMachine platformBase64 (some 1) (some 4)).Run
      (fun client label => ¬ client.Splices platformBase64 label) ⟨true, fun _ => none⟩
      [.wsOpen [115], .loopbackMessage [115] [1, 2], .dataAck [115] 0, .dataAck [115] 1,
        .controlCloses, .loopbackMessage [115] [3, 4], .controlOpens,
        .loopbackMessage [115] [5, 6]] target ∧
      (target.streams [115]).map DocumentStream.returned = some [[1, 2], [5, 6]] :=
    Machine.evaluate_view (by decide +kernel)
  obtain ⟨document, listed, returned⟩ := Option.map_eq_some_iff.mp seen
  exact ⟨target, document, run, listed, returned,
    no_spliced_messages (by decide) run [115] document listed⟩

end Kb1Daemon
