import Kb1Daemon.Tunnel.Mux

/-! # The send window of a document stream

A codec counts the bytes of the frames that it has released and that are not acknowledged. The
count is their sum, and it stays within the window or one chunk; when frames wait for the window,
a frame with bytes is not acknowledged, so that its acknowledgement releases more. The
multiplexer pauses the loopback of a stream exactly while frames of the stream wait
(`flow_control_sound`).
-/

namespace Kb1Daemon

/-- The number of the bytes that a frame carries. -/
def TunnelWebSocketDataEnvelope.size (base64 : Base64) (frame : TunnelWebSocketDataEnvelope) :
    Nat :=
  (base64.bytesOf frame.bytesB64).length

/-- A codec that sends, with the frames it has released that are not acknowledged. -/
structure WindowSender where
  codec : DocumentStreamCodec
  outstanding : List TunnelWebSocketDataEnvelope

inductive WindowLabel where
  | enqueue (bytes : Bytes)
  | pullSendable
  /-- An acknowledgement; a value that is no natural number is the number of no frame. -/
  | onAck (seq : Option Nat)

/-- The machine of a codec and its outstanding frames. -/
def windowMachine (base64 : Base64) : Machine WindowSender WindowLabel where
  step sender label :=
    match label with
    | .enqueue bytes => some { sender with codec := sender.codec.enqueue base64 bytes }
    | .pullSendable =>
        some ⟨sender.codec.pullSendable.1, sender.outstanding ++ sender.codec.pullSendable.2⟩
    | .onAck none => some sender
    | .onAck (some seq) =>
        some ⟨sender.codec.onAck seq, sender.outstanding.filter (·.seq ≠ seq)⟩

/-- A sum, split into the item with a key and the others. -/
theorem sum_eq_find_add_filter {Item : Type*} {key size : Item → Nat} {items : List Item}
    (distinct : (items.map key).Nodup) (number : Nat) :
    (items.map size).sum = ((items.find? (key · = number)).map size).getD 0 +
      ((items.filter (key · ≠ number)).map size).sum := by
  induction items with
  | nil => rfl
  | cons item items ih =>
      obtain ⟨fresh, distinct⟩ := List.nodup_cons.mp distinct
      by_cases same : key item = number
      · have others : items.filter (key · ≠ number) = items := by
          rw [List.filter_eq_self]
          intro other member
          rw [decide_eq_true_eq]
          rintro rfl
          exact fresh (same ▸ List.mem_map_of_mem member)
        rw [List.find?_cons_of_pos (by simpa using same),
          List.filter_cons_of_neg (by simpa using same), others]
        rfl
      · rw [List.find?_cons_of_neg (by simpa using same),
          List.filter_cons_of_pos (by simpa using same), List.map_cons, List.sum_cons, ih distinct,
          List.map_cons, List.sum_cons]
        omega

/-- What holds of the outstanding frames, the queue, the count and the table of a codec. -/
structure WindowLedger (base64 : Base64) (windowBytes : Int) (chunkBytes : Nat)
    (outstanding : List TunnelWebSocketDataEnvelope) (queue : List OutboundFrame) (unacked : Nat)
    (unackedBySeq : Table Nat Nat) : Prop where
  sized : ∀ next ∈ queue, next.bytes = next.frame.size base64
  chunked : ∀ next ∈ queue, next.bytes ≤ chunkBytes
  distinct : (outstanding.map TunnelWebSocketDataEnvelope.seq ++
    queue.map fun next => next.frame.seq).Nodup
  entries : ∀ seq, unackedBySeq.get seq =
    ((outstanding.find? (·.seq = seq)).map (·.size base64)).filter (0 < ·)
  counted : unacked = (outstanding.map (·.size base64)).sum
  bounded : (unacked : Int) ≤ max windowBytes chunkBytes

namespace WindowLedger

variable {base64 : Base64} {windowBytes : Int} {chunkBytes unacked : Nat}
  {outstanding : List TunnelWebSocketDataEnvelope} {queue : List OutboundFrame}
  {unackedBySeq : Table Nat Nat}

/-- The first frame of the queue is released. -/
theorem release {next : OutboundFrame}
    (ledger : WindowLedger base64 windowBytes chunkBytes outstanding (next :: queue) unacked
      unackedBySeq)
    (fits : ¬(0 < unacked ∧ windowBytes < unacked + next.bytes)) :
    WindowLedger base64 windowBytes chunkBytes (outstanding ++ [next.frame]) queue
      (unacked + next.bytes)
      (if 0 < next.bytes then unackedBySeq.set next.frame.seq next.bytes else unackedBySeq) := by
  have size := ledger.sized next List.mem_cons_self
  have chunk := ledger.chunked next List.mem_cons_self
  have distinct := ledger.distinct
  rw [List.map_cons] at distinct
  have fresh : outstanding.find? (·.seq = next.frame.seq) = none := by
    rw [List.find?_eq_none]
    intro other member same
    exact (List.nodup_append.mp distinct).2.2 _ (List.mem_map_of_mem member) _ List.mem_cons_self
      (of_decide_eq_true same)
  constructor
  case sized => exact fun other member => ledger.sized other (List.mem_cons_of_mem _ member)
  case chunked => exact fun other member => ledger.chunked other (List.mem_cons_of_mem _ member)
  case distinct => rwa [List.map_append, List.append_assoc]
  case entries =>
    intro seq
    rw [List.find?_append]
    by_cases same : seq = next.frame.seq
    · subst same
      rw [fresh, Option.none_or, List.find?_singleton, if_pos (decide_eq_true rfl), Option.map_some,
        ← size]
      by_cases positive : 0 < next.bytes
      · rw [if_pos positive, Table.get_set, if_pos rfl, Option.filter_some, if_pos (by simpa)]
      · rw [if_neg positive, ledger.entries, fresh, Option.filter_some,
          if_neg (by simpa using positive)]
        rfl
    · have kept : (if 0 < next.bytes then unackedBySeq.set next.frame.seq next.bytes
          else unackedBySeq).get seq = unackedBySeq.get seq := by
        split_ifs
        · rw [Table.get_set, if_neg same]
        · rfl
      rw [kept, ledger.entries, List.find?_singleton, if_neg (by simpa using Ne.symm same),
        Option.or_none]
  case counted =>
    rw [ledger.counted, List.map_append, List.sum_append, List.map_singleton, List.sum_singleton,
      size]
  case bounded =>
    by_cases none : unacked = 0
    · omega
    · have within : ¬windowBytes < unacked + next.bytes :=
        fun large => fits ⟨Nat.pos_of_ne_zero none, large⟩
      omega

/-- **The loop of `pullSendable`** keeps the ledger, and stops only when something is
outstanding. -/
theorem pullLoop
    (ledger : WindowLedger base64 windowBytes chunkBytes outstanding queue unacked unackedBySeq) :
    let pulled := DocumentStreamCodec.pullLoop windowBytes queue unacked unackedBySeq
    WindowLedger base64 windowBytes chunkBytes (outstanding ++ pulled.1) pulled.2.1 pulled.2.2.1
        pulled.2.2.2 ∧
      (pulled.2.1 ≠ [] → 0 < pulled.2.2.1) := by
  induction queue generalizing outstanding unacked unackedBySeq with
  | nil =>
      refine ⟨?_, fun some => absurd rfl some⟩
      rwa [DocumentStreamCodec.pullLoop, List.append_nil]
  | cons next queue ih =>
      dsimp only
      unfold DocumentStreamCodec.pullLoop
      by_cases full : 0 < unacked ∧ windowBytes < unacked + next.bytes
      · rw [if_pos full]
        refine ⟨?_, fun _ => full.1⟩
        rwa [List.append_nil]
      · rw [if_neg full]
        obtain ⟨later, stopped⟩ := ih (ledger.release full)
        refine ⟨?_, stopped⟩
        rwa [List.append_assoc] at later

/-- When frames wait, and nothing with bytes is outstanding, a frame is released. -/
theorem pullLoop_ne_nil
    (ledger : WindowLedger base64 windowBytes chunkBytes outstanding queue unacked unackedBySeq)
    (idle : ∀ frame ∈ outstanding, frame.size base64 = 0) (waiting : queue ≠ []) :
    (DocumentStreamCodec.pullLoop windowBytes queue unacked unackedBySeq).1 ≠ [] := by
  obtain ⟨next, queue, rfl⟩ := List.exists_cons_of_ne_nil waiting
  have none : unacked = 0 := by
    rw [ledger.counted, List.sum_eq_zero_iff_forall_eq_nat]
    intro size member
    obtain ⟨frame, outstanding, rfl⟩ := List.mem_map.mp member
    exact idle frame outstanding
  unfold DocumentStreamCodec.pullLoop
  rw [if_neg (by omega)]
  exact List.cons_ne_nil _ _

/-- A frame is acknowledged, or one that is not outstanding. -/
theorem acknowledge
    (ledger : WindowLedger base64 windowBytes chunkBytes outstanding queue unacked unackedBySeq)
    (seq : Nat) :
    WindowLedger base64 windowBytes chunkBytes (outstanding.filter (·.seq ≠ seq)) queue
      (unacked - (unackedBySeq.get seq).getD 0) (unackedBySeq.delete seq) := by
  have split := @sum_eq_find_add_filter _ _ (·.size base64) _
    (List.nodup_append.mp ledger.distinct).1 seq
  have size : (unackedBySeq.get seq).getD 0 =
      ((outstanding.find? (·.seq = seq)).map (·.size base64)).getD 0 := by
    rw [ledger.entries]
    cases (outstanding.find? (·.seq = seq)).map (·.size base64) with
    | none => rfl
    | some size =>
        rw [Option.filter_some]
        split_ifs with positive
        · rfl
        · exact (Nat.eq_zero_of_not_pos (by simpa using positive)).symm
  have left : unacked - (unackedBySeq.get seq).getD 0 =
      ((outstanding.filter (·.seq ≠ seq)).map (·.size base64)).sum := by
    rw [ledger.counted, size, split]
    omega
  refine ⟨ledger.sized, ledger.chunked, ?_, ?_, left, ?_⟩
  · exact ledger.distinct.sublist ((List.filter_sublist.map _).append (List.Sublist.refl _))
  · intro other
    rw [Table.get_delete, List.find?_filter]
    by_cases same : other = seq
    · have none : outstanding.find? (fun frame => decide (decide (frame.seq ≠ seq) = true ∧
          decide (frame.seq = other) = true)) = none := by
        rw [List.find?_eq_none]
        simp [same]
      rw [if_pos same, none]
      rfl
    · rw [if_neg same, ledger.entries]
      congr 3
      funext frame
      by_cases own : frame.seq = other <;> simp [own, same]
  · have bounded := ledger.bounded
    omega

/-- **An acknowledgement** keeps the ledger of a codec, and changes nothing else. -/
theorem onAck {codec : DocumentStreamCodec}
    (ledger : WindowLedger base64 windowBytes chunkBytes outstanding codec.outbound codec.unacked
      codec.unackedBySeq) (seq : Nat) :
    WindowLedger base64 windowBytes chunkBytes (outstanding.filter (·.seq ≠ seq))
        (codec.onAck seq).outbound (codec.onAck seq).unacked (codec.onAck seq).unackedBySeq ∧
      (codec.onAck seq).outbound = codec.outbound ∧ (codec.onAck seq).txSeq = codec.txSeq ∧
      (codec.onAck seq).windowBytes = codec.windowBytes ∧
      (codec.onAck seq).chunkBytes = codec.chunkBytes := by
  have acknowledged := ledger.acknowledge seq
  unfold DocumentStreamCodec.onAck
  split
  · rename_i absent
    rw [absent] at acknowledged
    refine ⟨{ acknowledged with entries := fun other => ?_ }, rfl, rfl, rfl, rfl⟩
    rw [← acknowledged.entries, Table.get_delete]
    split_ifs with same
    · rw [same, absent]
    · rfl
  · rename_i bytes found
    rw [found] at acknowledged
    exact ⟨acknowledged, rfl, rfl, rfl, rfl⟩

/-- A frame with a new number is queued. -/
theorem push {next : OutboundFrame}
    (ledger : WindowLedger base64 windowBytes chunkBytes outstanding queue unacked unackedBySeq)
    (size : next.bytes = next.frame.size base64) (chunk : next.bytes ≤ chunkBytes)
    (fresh : ∀ seq ∈ outstanding.map TunnelWebSocketDataEnvelope.seq ++
      queue.map fun next => next.frame.seq, seq ≠ next.frame.seq) :
    WindowLedger base64 windowBytes chunkBytes outstanding (queue ++ [next]) unacked
      unackedBySeq := by
  refine ⟨?_, ?_, ?_, ledger.entries, ledger.counted, ledger.bounded⟩
  · intro other member
    rcases List.mem_append.mp member with queued | last
    · exact ledger.sized other queued
    · rwa [List.mem_singleton.mp last]
  · intro other member
    rcases List.mem_append.mp member with queued | last
    · exact ledger.chunked other queued
    · rwa [List.mem_singleton.mp last]
  · rw [List.map_append, ← List.append_assoc, List.nodup_append]
    refine ⟨ledger.distinct, List.nodup_singleton _, ?_⟩
    intro seq member other last
    rw [List.map_singleton, List.mem_singleton] at last
    rw [last]
    exact fresh seq member

end WindowLedger

/-- The ledger of a sender, whose frames have numbers that the codec has given out. -/
structure WindowSender.Accounted (base64 : Base64) (windowBytes : Int) (chunkBytes : Nat)
    (sender : WindowSender) : Prop where
  window : sender.codec.windowBytes = windowBytes
  chunk : sender.codec.chunkBytes = chunkBytes
  ledger : WindowLedger base64 windowBytes chunkBytes sender.outstanding sender.codec.outbound
    sender.codec.unacked sender.codec.unackedBySeq
  numbered : ∀ seq ∈ sender.outstanding.map TunnelWebSocketDataEnvelope.seq ++
    sender.codec.outbound.map fun next => next.frame.seq, seq < sender.codec.txSeq

namespace WindowSender.Accounted

variable {base64 : Base64} {windowBytes : Int} {chunkBytes : Nat} {sender next : WindowSender}

/-- A frame is queued under the next number. -/
theorem queue (accounted : sender.Accounted base64 windowBytes chunkBytes)
    {frame : TunnelWebSocketDataEnvelope} (number : frame.seq = sender.codec.txSeq)
    (chunk : frame.size base64 ≤ chunkBytes) :
    WindowSender.Accounted base64 windowBytes chunkBytes
      { sender with codec :=
        { sender.codec with
          txSeq := sender.codec.txSeq + 1
          outbound := sender.codec.outbound ++ [⟨frame, frame.size base64⟩] } } := by
  refine ⟨accounted.window, accounted.chunk, accounted.ledger.push rfl chunk ?_, ?_⟩
  · intro seq member
    exact Nat.ne_of_lt (number ▸ accounted.numbered seq member)
  · intro seq member
    rw [List.map_append, ← List.append_assoc] at member
    rcases List.mem_append.mp member with earlier | last
    · exact Nat.lt_succ_of_lt (accounted.numbered seq earlier)
    · rw [List.map_singleton, List.mem_singleton] at last
      rw [last, number]
      exact Nat.lt_succ_self _

theorem push (accounted : sender.Accounted base64 windowBytes chunkBytes) {piece : Bytes}
    (small : piece.length ≤ chunkBytes) (fin : Bool) :
    WindowSender.Accounted base64 windowBytes chunkBytes
      { sender with codec := sender.codec.push base64 piece fin } := by
  have size : (TunnelWebSocketDataEnvelope.mk sender.codec.streamId sender.codec.txSeq
      (base64.bytesToBase64 piece) fin).size base64 = piece.length := by
    rw [TunnelWebSocketDataEnvelope.size, base64.bytesOf_bytesToBase64]
  have queued := @queue _ _ _ _ accounted ⟨sender.codec.streamId, sender.codec.txSeq,
    base64.bytesToBase64 piece, fin⟩ rfl (by rwa [size])
  rwa [size] at queued

theorem enqueueLoop (accounted : sender.Accounted base64 windowBytes chunkBytes) (fuel : Nat)
    (rest : Bytes) :
    WindowSender.Accounted base64 windowBytes chunkBytes
      { sender with codec := sender.codec.enqueueLoop base64 fuel rest } := by
  induction fuel generalizing sender rest with
  | zero => exact accounted
  | succ fuel ih =>
      unfold DocumentStreamCodec.enqueueLoop
      split
      · exact accounted
      · refine ih (accounted.push ?_ _) _
        rw [← accounted.chunk]
        exact List.length_take_le _ _

/-- Every step keeps the account. -/
theorem step (accounted : sender.Accounted base64 windowBytes chunkBytes) {label : WindowLabel}
    (stepped : (windowMachine base64).step sender label = some next) :
    next.Accounted base64 windowBytes chunkBytes := by
  cases label with
  | enqueue bytes =>
      obtain rfl := Option.some.inj stepped
      unfold DocumentStreamCodec.enqueue
      by_cases empty : bytes.length = 0
      · have size : (TunnelWebSocketDataEnvelope.mk sender.codec.streamId sender.codec.txSeq [] true).size
            base64 = 0 := by
          have coded := base64.bytesOf_bytesToBase64 []
          rw [base64.bytesToBase64_nil] at coded
          exact congrArg List.length coded
        have queued := @queue _ _ _ _ accounted ⟨sender.codec.streamId, sender.codec.txSeq, [],
          true⟩ rfl (by rw [size]; exact Nat.zero_le _)
        rw [if_pos empty]
        rwa [size] at queued
      · rw [if_neg empty]
        exact accounted.enqueueLoop _ _
  | pullSendable =>
      obtain rfl := Option.some.inj stepped
      obtain ⟨rfl, rfl, ledger, numbered⟩ := accounted
      have front := DocumentStreamCodec.pullLoop_spec sender.codec.windowBytes
        sender.codec.outbound sender.codec.unacked sender.codec.unackedBySeq
      refine ⟨rfl, rfl, ledger.pullLoop.1, fun seq member => numbered seq ?_⟩
      have same := congrArg (List.map TunnelWebSocketDataEnvelope.seq) front
      rw [List.map_append, List.map_map, List.map_map] at same
      rw [List.map_append, List.append_assoc] at member
      rcases List.mem_append.mp member with outstanding | released
      · exact List.mem_append_left _ outstanding
      · exact List.mem_append_right _ (same ▸ released)
  | onAck seq =>
      cases seq with
      | none =>
          obtain rfl := Option.some.inj stepped
          exact accounted
      | some seq =>
          obtain rfl := Option.some.inj stepped
          obtain ⟨ledger, queue, number, window, chunk⟩ := accounted.ledger.onAck seq
          refine ⟨window.trans accounted.window, chunk.trans accounted.chunk, ledger, ?_⟩
          intro other member
          rw [number]
          refine accounted.numbered other ?_
          rcases List.mem_append.mp member with outstanding | queued
          · exact List.mem_append_left _ ((List.filter_sublist.map _).subset outstanding)
          · exact List.mem_append_right _ (queue ▸ queued)

end WindowSender.Accounted

/-- What the window of a codec guarantees: the count is the sum of what is outstanding and stays
in its bound; when frames are left after a pull, a frame with bytes is outstanding; and when no
frame with bytes is, a pull releases one of those that wait. -/
structure WindowSender.Sound (base64 : Base64) (sender : WindowSender) : Prop where
  counted : sender.codec.unacked = (sender.outstanding.map (·.size base64)).sum
  bounded : (sender.codec.unacked : Int) ≤ max sender.codec.windowBytes sender.codec.chunkBytes
  waits : sender.codec.pullSendable.1.hasPendingOutbound = true →
    ∃ frame ∈ sender.outstanding ++ sender.codec.pullSendable.2, 0 < frame.size base64
  releases : (∀ frame ∈ sender.outstanding, frame.size base64 = 0) →
    sender.codec.hasPendingOutbound = true → sender.codec.pullSendable.2 ≠ []

theorem hasPendingOutbound_iff {codec : DocumentStreamCodec} :
    codec.hasPendingOutbound = true ↔ codec.outbound ≠ [] := by
  rw [DocumentStreamCodec.hasPendingOutbound, decide_eq_true_eq, List.length_pos_iff]

theorem WindowSender.Accounted.sound {base64 : Base64} {windowBytes : Int} {chunkBytes : Nat}
    {sender : WindowSender} (accounted : sender.Accounted base64 windowBytes chunkBytes) :
    sender.Sound base64 := by
  obtain ⟨rfl, rfl, ledger, _⟩ := accounted
  refine ⟨ledger.counted, ledger.bounded, ?_, ?_⟩
  · intro waiting
    obtain ⟨pulled, positive⟩ := ledger.pullLoop
    have some := positive (hasPendingOutbound_iff.mp waiting)
    rw [pulled.counted, List.sum_pos_iff_exists_pos_nat] at some
    obtain ⟨size, member, positive⟩ := some
    obtain ⟨frame, outstanding, rfl⟩ := List.mem_map.mp member
    exact ⟨frame, outstanding, positive⟩
  · intro idle waiting
    exact ledger.pullLoop_ne_nil idle (hasPendingOutbound_iff.mp waiting)

/-- A multiplexer, and whether the loopback of each stream is paused. -/
structure FlowMux where
  mux : StreamMux
  socketPaused : Nat → Bool

/-- The call that `flushOutbound` makes of a loopback: `pause` is true and `resume` is false. -/
def MuxStream.pauseCall (stream : MuxStream) : Option Bool :=
  let pending := stream.codec.pullSendable.1.hasPendingOutbound
  if pending && !stream.paused then some true
  else if !pending && stream.paused then some false
  else none

/-- The stream that a step flushes, as it is before. -/
def StreamMux.flushing (base64 : Base64) (mux : StreamMux) : MuxLabel → Option (Nat × MuxStream)
  | .handleDataAck streamId seq =>
      (mux.streams.get streamId).map fun index =>
        (index, { mux.store index with codec := (mux.store index).codec.onAck seq })
  | .loopbackMessage index (some bytes) =>
      some (index, { mux.store index with codec := (mux.store index).codec.enqueue base64 bytes })
  | _ => none

/-- Which loopbacks are paused after a step. A new loopback is not. -/
def FlowMux.pausedAfter (base64 : Base64) (flow : FlowMux) (label : MuxLabel) : Nat → Bool :=
  match label with
  | .handleOpen streamId =>
      if (flow.mux.streams.get streamId).isSome then flow.socketPaused
      else Function.update flow.socketPaused flow.mux.fresh false
  | _ =>
      match flow.mux.flushing base64 label with
      | none => flow.socketPaused
      | some (index, stream) =>
          Function.update flow.socketPaused index
            (stream.pauseCall.getD (flow.socketPaused index))

/-- The machine of the multiplexer and its loopbacks. -/
def flowMachine (base64 : Base64) : Machine FlowMux MuxLabel where
  step flow label :=
    ((muxMachine base64).step flow.mux label).map fun next =>
      ⟨next, flow.pausedAfter base64 label⟩

namespace StreamMux

variable {base64 : Base64} {mux next : StreamMux}

/-- What decides whether a loopback has to be paused, and whether it is. -/
def flow (mux : StreamMux) (index : Nat) : Bool × List OutboundFrame :=
  ((mux.store index).paused, (mux.store index).codec.outbound)

theorem flow_put {index : Nat} {stream : MuxStream}
    (same : (stream.paused, stream.codec.outbound) = mux.flow index) :
    (mux.put index stream).flow = mux.flow := by
  funext other
  have found : (mux.put index stream).store other =
      if other = index then stream else mux.store other := Function.update_apply _ _ _ _
  unfold flow
  rw [found]
  split_ifs with own
  · rw [own, same]
    rfl
  · rfl

theorem flow_tearDown (mux : StreamMux) (streamId : JsString) (code : Nat) (reason : JsString) :
    (mux.tearDown streamId code reason).flow = mux.flow := by
  unfold tearDown
  split
  · rfl
  · exact @flow_put mux _ _ rfl

theorem outbound_ingest (codec : DocumentStreamCodec) (frame : TunnelWebSocketDataEnvelope) :
    (codec.ingest base64 frame).1.outbound = codec.outbound := by
  unfold DocumentStreamCodec.ingest
  split
  · rfl
  · dsimp only
    split_ifs <;> rfl

theorem flow_handleData (mux : StreamMux) (frame : TunnelWebSocketDataEnvelope) (delivers : Bool) :
    (mux.handleData base64 frame delivers).flow = mux.flow := by
  unfold handleData
  split
  · rfl
  · rename_i index found
    have outbound := @outbound_ingest base64 (mux.store index).codec frame
    have same : ∀ {codec : DocumentStreamCodec},
        codec.outbound = (mux.store index).codec.outbound → ∀ stream : MuxStream,
          stream.codec = codec → stream.paused = (mux.store index).paused →
            (mux.put index stream).flow = mux.flow := by
      intro codec kept stream own paused
      exact flow_put (by rw [own, kept, paused]; rfl)
    dsimp only
    split
    all_goals
      rename_i codec _ ingested
      rw [ingested] at outbound
    · rw [flow_tearDown]
      exact same outbound _ rfl rfl
    · exact same outbound _ rfl rfl
    · split_ifs
      · exact same outbound _ rfl rfl
      · rw [flow_tearDown]
        exact same outbound _ rfl rfl
      · rw [flow_tearDown]
        exact same outbound _ rfl rfl
      · exact same outbound _ rfl rfl

/-- A step that makes and flushes no stream pauses none and queues nothing. -/
theorem flow_step {label : MuxLabel} (stepped : (muxMachine base64).step mux label = some next)
    (calm : mux.flushing base64 label = none) (old : ∀ streamId, label ≠ .handleOpen streamId) :
    next.flow = mux.flow := by
  cases label with
  | handleOpen streamId => exact absurd rfl (old streamId)
  | handleData frame delivers =>
      obtain rfl := Option.some.inj stepped
      exact flow_handleData mux frame delivers
  | handleDataAck streamId seq =>
      obtain rfl := Option.some.inj stepped
      unfold handleDataAck
      rw [Option.map_eq_none_iff.mp calm]
  | handleClose streamId reason =>
      obtain rfl := Option.some.inj stepped
      unfold handleClose
      split
      · rfl
      · exact @flow_put mux _ _ rfl
  | disposeAll reason =>
      obtain rfl := Option.some.inj stepped
      funext index
      unfold flow disposeAll
      dsimp only
      split_ifs <;> rfl
  | loopbackOpened index delivers =>
      simp only [muxMachine] at stepped
      split_ifs at stepped
      obtain rfl := Option.some.inj stepped
      unfold loopbackOpened
      dsimp only
      split_ifs
      · exact @flow_put mux _ _ rfl
      · rw [flow_tearDown]
        exact @flow_put mux _ _ rfl
  | loopbackMessage index data =>
      simp only [muxMachine] at stepped
      split_ifs at stepped
      obtain rfl := Option.some.inj stepped
      cases data with
      | none => rfl
      | some bytes => cases calm
  | loopbackClosed index code reason =>
      simp only [muxMachine] at stepped
      split_ifs at stepped
      obtain rfl := Option.some.inj stepped
      unfold loopbackClosed
      dsimp only
      split
      · exact @flow_put mux _ _ rfl
      · exact @flow_put mux _ _ rfl

/-- The stream that a step flushes. -/
theorem store_of_flushing {label : MuxLabel} {index : Nat} {stream : MuxStream}
    (stepped : (muxMachine base64).step mux label = some next)
    (flushes : mux.flushing base64 label = some (index, stream)) (other : Nat) :
    stream.paused = (mux.store index).paused ∧
      next.store other = if other = index then stream.flushOutbound.1 else mux.store other := by
  cases label with
  | handleDataAck streamId seq =>
      obtain rfl := Option.some.inj stepped
      obtain ⟨registered, found, same⟩ := Option.map_eq_some_iff.mp flushes
      cases same
      unfold handleDataAck
      rw [found]
      exact ⟨rfl, Function.update_apply _ _ _ _⟩
  | loopbackMessage place data =>
      simp only [muxMachine] at stepped
      split_ifs at stepped
      obtain rfl := Option.some.inj stepped
      cases data with
      | none => cases flushes
      | some bytes =>
          cases flushes
          exact ⟨rfl, Function.update_apply _ _ _ _⟩
  | handleOpen | handleData | handleClose | disposeAll | loopbackOpened | loopbackClosed =>
      cases flushes

/-- A stream that is made has nothing queued and is not paused. -/
theorem flow_handleOpen (streamId : JsString) (unused : mux.streams.get streamId = none)
    (index : Nat) :
    (mux.handleOpen streamId).flow index =
      if index = mux.fresh then (false, []) else mux.flow index := by
  have found : ∀ stream, (mux.put mux.fresh stream).store index =
      if index = mux.fresh then stream else mux.store index :=
    fun stream => Function.update_apply _ _ _ _
  unfold handleOpen
  rw [unused]
  unfold flow
  dsimp only
  rw [found]
  split_ifs <;> rfl

end StreamMux

namespace FlowMux

variable {base64 : Base64} {flow next : FlowMux}

/-- Every loopback is paused when its stream says so, and that is when frames wait. -/
def Paused (flow : FlowMux) : Prop :=
  ∀ index, flow.socketPaused index = (flow.mux.flow index).1 ∧
    (flow.mux.flow index).1 = decide (0 < (flow.mux.flow index).2.length)

theorem pauseCall_spec (stream : MuxStream) :
    stream.pauseCall.getD stream.paused = stream.flushOutbound.1.paused := by
  unfold MuxStream.pauseCall MuxStream.flushOutbound
  dsimp only
  cases stream.codec.pullSendable.1.hasPendingOutbound <;> cases stream.paused <;> rfl

/-- **A step** pauses and resumes the loopbacks as it should. -/
theorem Paused.step {label : MuxLabel} (paused : flow.Paused)
    (stepped : (flowMachine base64).step flow label = some next) : next.Paused := by
  obtain ⟨mux, moved, rfl⟩ := Option.map_eq_some_iff.mp stepped
  by_cases opens : ∃ streamId, label = .handleOpen streamId
  · obtain ⟨streamId, rfl⟩ := opens
    obtain rfl := Option.some.inj moved
    cases used : flow.mux.streams.get streamId with
    | some index =>
        have same : flow.mux.handleOpen streamId = flow.mux := by
          unfold StreamMux.handleOpen
          rw [used]
        have kept : flow.pausedAfter base64 (.handleOpen streamId) = flow.socketPaused :=
          if_pos (by rw [used, Option.isSome_some])
        rw [same, kept]
        exact paused
    | none =>
        have made : flow.pausedAfter base64 (.handleOpen streamId) =
            Function.update flow.socketPaused flow.mux.fresh false :=
          if_neg (by rw [used]; exact Bool.false_ne_true)
        rw [made]
        intro index
        dsimp only
        rw [StreamMux.flow_handleOpen streamId used, Function.update_apply]
        split_ifs
        · exact ⟨rfl, rfl⟩
        · exact paused index
  · have old : ∀ streamId, label ≠ .handleOpen streamId :=
      fun streamId same => opens ⟨streamId, same⟩
    cases flushes : flow.mux.flushing base64 label with
    | none =>
        have kept : flow.pausedAfter base64 label = flow.socketPaused := by
          unfold pausedAfter
          split
          · exact absurd rfl (old _)
          · rw [flushes]
        intro index
        dsimp only
        rw [kept, StreamMux.flow_step moved flushes old]
        exact paused index
    | some flushed =>
        obtain ⟨index, stream⟩ := flushed
        have called : flow.pausedAfter base64 label = Function.update flow.socketPaused index
            (stream.pauseCall.getD (flow.socketPaused index)) := by
          unfold pausedAfter
          split
          · exact absurd rfl (old _)
          · rw [flushes]
        intro other
        obtain ⟨flag, stored⟩ := StreamMux.store_of_flushing moved flushes other
        have flows : mux.flow other =
            if other = index then
              (stream.flushOutbound.1.paused, stream.flushOutbound.1.codec.outbound)
            else flow.mux.flow other := by
          unfold StreamMux.flow
          rw [stored]
          split_ifs <;> rfl
        dsimp only
        rw [called, flows, Function.update_apply]
        split_ifs with own
        · rw [(paused index).1]
          refine ⟨?_, rfl⟩
          rw [← pauseCall_spec, flag]
          rfl
        · exact paused other

end FlowMux

/-- **Flow control.** Whatever a codec is given, pulls and hears of acknowledgements, its window
is sound; and whatever happens to a multiplexer, the loopback of each stream is paused exactly
while frames of the stream wait. -/
theorem flow_control_sound (base64 : Base64) :
    (∀ streamId chunkBytes windowBytes messageByteLimit labels sender,
      (windowMachine base64).Run (fun _ _ => True)
        ⟨.new streamId chunkBytes windowBytes messageByteLimit, []⟩ labels sender →
        sender.codec.chunkBytes = chunkBytes ∧ sender.codec.windowBytes = windowBytes ∧
          sender.Sound base64) ∧
    (∀ chunkBytes windowBytes labels flow,
      (flowMachine base64).Run (fun _ _ => True) ⟨.new chunkBytes windowBytes, fun _ => false⟩
        labels flow →
        ∀ index < flow.mux.fresh,
          flow.socketPaused index = (flow.mux.store index).codec.hasPendingOutbound) := by
  constructor
  · intro streamId chunkBytes windowBytes messageByteLimit labels sender run
    have start : WindowSender.Accounted base64 windowBytes chunkBytes
        ⟨.new streamId chunkBytes windowBytes messageByteLimit, []⟩ := by
      refine ⟨rfl, rfl, ⟨by simp [DocumentStreamCodec.new], by simp [DocumentStreamCodec.new],
        by simp [DocumentStreamCodec.new], fun seq => rfl, rfl, ?_⟩, by
          simp [DocumentStreamCodec.new]⟩
      exact Int.le_trans (Int.natCast_nonneg chunkBytes) (Int.le_max_right _ _)
    have accounted : sender.Accounted base64 windowBytes chunkBytes :=
      run.invariant (fun _ _ _ _ stepped accounted => accounted.step stepped) start
    exact ⟨accounted.chunk, accounted.window, accounted.sound⟩
  · intro chunkBytes windowBytes labels flow run index _
    have start : FlowMux.Paused ⟨.new chunkBytes windowBytes, fun _ => false⟩ :=
      fun _ => ⟨rfl, rfl⟩
    have paused : flow.Paused :=
      run.invariant (fun _ _ _ _ stepped paused => paused.step stepped) start
    exact (paused index).1.trans (paused index).2

/-- Four bytes in two chunks and a window of three bytes: the second chunk waits, and so the
loopback is paused. -/
theorem flow_control_sound_window :
    (∃ sender, (windowMachine platformBase64).Run (fun _ _ => True)
        ⟨.new [115] 2 3 4, []⟩ [.enqueue [1, 2, 3, 4], .pullSendable, .onAck none] sender ∧
      sender.codec.unacked = 2 ∧ sender.codec.chunkBytes = 2 ∧ sender.codec.windowBytes = 3 ∧
      sender.Sound platformBase64) ∧
    ∃ flow, (flowMachine platformBase64).Run (fun _ _ => True)
        ⟨.new (some 2) (some 3), fun _ => false⟩
        [.handleOpen [115], .loopbackOpened 0 0, .loopbackMessage 0 (some [1, 2, 3, 4])] flow ∧
      flow.socketPaused 0 = true ∧
      flow.socketPaused 0 = (flow.mux.store 0).codec.hasPendingOutbound := by
  obtain ⟨codecs, streams⟩ := flow_control_sound platformBase64
  constructor
  · obtain ⟨sender, run, unacked⟩ : ∃ sender, (windowMachine platformBase64).Run (fun _ _ => True)
        ⟨.new [115] 2 3 4, []⟩ [.enqueue [1, 2, 3, 4], .pullSendable, .onAck none] sender ∧
        sender.codec.unacked = 2 := Machine.evaluate_view (by decide +kernel)
    exact ⟨sender, run, unacked, codecs _ _ _ _ _ _ run⟩
  · obtain ⟨flow, run, seen⟩ : ∃ flow, (flowMachine platformBase64).Run (fun _ _ => True)
        ⟨.new (some 2) (some 3), fun _ => false⟩
        [.handleOpen [115], .loopbackOpened 0 0, .loopbackMessage 0 (some [1, 2, 3, 4])] flow ∧
        (flow.socketPaused 0, decide (0 < flow.mux.fresh)) = (true, true) :=
      Machine.evaluate_view (by decide +kernel)
    obtain ⟨paused, made⟩ := Prod.mk.inj seen
    exact ⟨flow, run, paused, streams _ _ _ _ run 0 (of_decide_eq_true made)⟩

end Kb1Daemon
