import Kb1Daemon.Foundation.Machine
import Kb1Daemon.Tunnel.Response

/-! # Streaming responses

A response with a content length is sent as it is read: a start with the length, chunks, and an
end. When reading or sending fails after the start, an end is sent as well, and the relay is
expected to see that bytes are missing. None are when the failure comes after the last announced
byte, so a response that looks complete is complete in exactly the runs in which no failure comes
that late (`streaming_sound_iff`). After a cancellation no end is sent (`ResponseStream.silent_of_run`).
-/

namespace Kb1Daemon

/-- The head of a response that is streamed. -/
structure StreamedResponse where
  id : JsString
  status : Nat
  headers : List (JsString × JsString)
  totalBytes : Nat
  deriving DecidableEq, Repr

/-- How the body of a response ends: with its last byte, or with an error. -/
inductive BodyEnd where
  | clean
  | failed
  deriving DecidableEq, Repr

inductive ResponseStreamPhase where
  /-- The bytes read that are not sent yet; the body is read on when there are none. -/
  | streaming (rest : Bytes)
  /-- A chunk waits for its acknowledgement. -/
  | awaiting (chunk rest : Bytes)
  /-- The reader is being cancelled, after an error or after a cancellation. -/
  | closing (thrown : Bool)
  | finished
  deriving DecidableEq, Repr

/-- A response that is being streamed, with the bytes read so far and the end of the body if it was
read. -/
structure ResponseStream where
  phase : ResponseStreamPhase
  canceled : Bool
  sentBytes : Nat
  chunks : Nat
  messages : List TunnelHttpResponseMessage
  received : Bytes
  ended : Option BodyEnd
  deriving DecidableEq, Repr

/-- How a chunk is sent: its acknowledgement is awaited, the relay does not acknowledge chunks, or
sending throws. -/
inductive ChunkSending where
  | awaited
  | plain
  | refused
  deriving DecidableEq, Repr

inductive ResponseStreamLabel where
  | read (bytes : Bytes)
  | done
  | failed
  | advance (sending : ChunkSending)
  /-- An acknowledgement; a value that is no natural number is the number of no chunk. -/
  | acknowledged (sequence : Option Nat)
  /-- The acknowledgement timed out or the control channel closed. -/
  | unacknowledged
  | cancel
  /-- The reader is cancelled and the error is handled. -/
  | settle
  deriving DecidableEq, Repr

namespace ResponseStream

/-- A response whose start has been sent. -/
def start (response : StreamedResponse) (canceled : Bool) : ResponseStream :=
  ⟨.streaming [], canceled, 0, 0,
    [.start ⟨response.id, response.status, response.headers, response.totalBytes⟩], [], none⟩

/-- The next chunk of the bytes read. -/
def advance (response : StreamedResponse) (stream : ResponseStream) (rest : Bytes)
    (sending : ChunkSending) : ResponseStream :=
  if stream.canceled then { stream with phase := .closing false }
  else if chunkBytes response.id stream.chunks ≤ 0 then { stream with phase := .closing true }
  else
    let room := (chunkBytes response.id stream.chunks).toNat
    let chunk := rest.take room
    let message := TunnelHttpResponseMessage.chunk ⟨response.id, stream.chunks, toBase64 chunk⟩
    if response.totalBytes < stream.sentBytes + chunk.length then
      { stream with phase := .closing true }
    else
      match sending with
      | .awaited =>
          { stream with
            phase := .awaiting chunk (rest.drop room)
            messages := stream.messages ++ [message] }
      | .plain =>
          { stream with
            phase := .streaming (rest.drop room)
            sentBytes := stream.sentBytes + chunk.length
            chunks := stream.chunks + 1
            messages := stream.messages ++ [message] }
      | .refused => { stream with phase := .closing true }

/-- The end, unless the response was cancelled. -/
def sendEnd (response : StreamedResponse) (stream : ResponseStream) :
    List TunnelHttpResponseMessage :=
  if stream.canceled then stream.messages
  else stream.messages ++ [.finish ⟨response.id, stream.chunks⟩]

end ResponseStream

/-- The machine of a streamed response. -/
def proxyAndSendStreamingHttpResponse (response : StreamedResponse) :
    Machine ResponseStream ResponseStreamLabel where
  step stream label :=
    match label, stream.phase with
    | .read bytes, .streaming [] =>
        some { stream with phase := .streaming bytes, received := stream.received ++ bytes }
    | .done, .streaming [] =>
        if stream.sentBytes ≠ response.totalBytes then
          some { stream with phase := .closing true, ended := some .clean }
        else
          some { stream with
            phase := .finished, ended := some .clean, messages := stream.sendEnd response }
    | .failed, .streaming [] =>
        some { stream with phase := .closing true, ended := some .failed }
    | .advance sending, .streaming (byte :: rest) =>
        some (stream.advance response (byte :: rest) sending)
    | .acknowledged sequence, .awaiting chunk rest =>
        if sequence = some stream.chunks then
          some { stream with
            phase := .streaming rest
            sentBytes := stream.sentBytes + chunk.length
            chunks := stream.chunks + 1 }
        else some { stream with phase := .closing true }
    | .unacknowledged, .awaiting _ _ => some { stream with phase := .closing true }
    | .cancel, .awaiting _ _ => some { stream with phase := .closing true, canceled := true }
    | .cancel, .streaming _ => some { stream with canceled := true }
    | .cancel, .closing _ => some { stream with canceled := true }
    | .settle, .closing true =>
        some { stream with phase := .finished, messages := stream.sendEnd response }
    | .settle, .closing false => some { stream with phase := .finished }
    | _, _ => none

/-- A finished response takes no step. -/
theorem ResponseStream.step_of_finished {response : StreamedResponse} {stream : ResponseStream}
    {label : ResponseStreamLabel} (finished : stream.phase = .finished) :
    (proxyAndSendStreamingHttpResponse response).step stream label = none := by
  cases label <;> simp only [proxyAndSendStreamingHttpResponse, finished]

/-- The chunks among messages. -/
def chunkFrames (messages : List TunnelHttpResponseMessage) :
    List TunnelHttpResponseChunkEnvelope :=
  messages.filterMap fun
    | .chunk envelope => some envelope
    | _ => none

/-- The ends among messages. -/
def endFrames (messages : List TunnelHttpResponseMessage) : List TunnelHttpResponseEndEnvelope :=
  messages.filterMap fun
    | .finish envelope => some envelope
    | _ => none

/-- The bytes that the chunks among messages carry. -/
def chunkBodies (buffers : BufferBase64) (messages : List TunnelHttpResponseMessage) : Bytes :=
  ((chunkFrames messages).map fun chunk => buffers.fromBase64 chunk.bodyB64).flatten

/-- The messages announce a number of bytes, carry as many, and end with the number of their
chunks. -/
def LooksComplete (buffers : BufferBase64) (totalBytes : Nat)
    (messages : List TunnelHttpResponseMessage) : Prop :=
  (∃ envelope, .start envelope ∈ messages ∧ envelope.totalBytes = totalBytes) ∧
    (chunkBodies buffers messages).length = totalBytes ∧
    ∃ envelope ∈ endFrames messages, envelope.chunks = (chunkFrames messages).length

/-- A response that looks complete carries the whole body in its order. -/
def ResponseStream.Sound (buffers : BufferBase64) (stream : ResponseStream) : Prop :=
  ∀ totalBytes, LooksComplete buffers totalBytes stream.messages →
    stream.ended = some .clean ∧ stream.received.length = totalBytes ∧
      chunkBodies buffers stream.messages = stream.received

/-- An error is handled although every announced byte has been sent and acknowledged. -/
def HandlesLateError (response : StreamedResponse) (stream : ResponseStream)
    (label : ResponseStreamLabel) : Prop :=
  label = .settle ∧ stream.phase = .closing true ∧ stream.canceled = false ∧
    stream.sentBytes = response.totalBytes ∧ (chunkFrames stream.messages).length = stream.chunks

instance (response : StreamedResponse) (stream : ResponseStream) (label : ResponseStreamLabel) :
    Decidable (HandlesLateError response stream label) :=
  inferInstanceAs (Decidable (_ ∧ _ ∧ _ ∧ _ ∧ _))

section Messages

variable (buffers : BufferBase64) (messages : List TunnelHttpResponseMessage)

@[simp] theorem chunkFrames_chunk (envelope : TunnelHttpResponseChunkEnvelope) :
    chunkFrames (messages ++ [.chunk envelope]) = chunkFrames messages ++ [envelope] :=
  List.filterMap_append

@[simp] theorem chunkFrames_finish (envelope : TunnelHttpResponseEndEnvelope) :
    chunkFrames (messages ++ [.finish envelope]) = chunkFrames messages := by
  rw [chunkFrames, List.filterMap_append]
  exact List.append_nil _

@[simp] theorem endFrames_chunk (envelope : TunnelHttpResponseChunkEnvelope) :
    endFrames (messages ++ [.chunk envelope]) = endFrames messages := by
  rw [endFrames, List.filterMap_append]
  exact List.append_nil _

@[simp] theorem endFrames_finish (envelope : TunnelHttpResponseEndEnvelope) :
    endFrames (messages ++ [.finish envelope]) = endFrames messages ++ [envelope] :=
  List.filterMap_append

@[simp] theorem chunkBodies_chunk (id : JsString) (sequence : Nat) (bytes : Bytes) :
    chunkBodies buffers (messages ++ [.chunk ⟨id, sequence, toBase64 bytes⟩]) =
      chunkBodies buffers messages ++ bytes := by
  rw [chunkBodies, chunkFrames_chunk, List.map_append, List.flatten_append, List.map_singleton,
    List.flatten_singleton, buffers.fromBase64_toBase64, chunkBodies]

@[simp] theorem chunkBodies_finish (envelope : TunnelHttpResponseEndEnvelope) :
    chunkBodies buffers (messages ++ [.finish envelope]) = chunkBodies buffers messages := by
  rw [chunkBodies, chunkFrames_finish, chunkBodies]

end Messages

/-- Where a streamed response stands: what has been sent and what is still to be sent are the bytes
read, and the counts are those of the acknowledged chunks. -/
structure ResponseStream.Progress (buffers : BufferBase64) (response : StreamedResponse)
    (stream : ResponseStream) : Prop where
  announced : ∀ totalBytes, (∃ envelope, .start envelope ∈ stream.messages ∧
    envelope.totalBytes = totalBytes) ↔ totalBytes = response.totalBytes
  streaming : ∀ rest, stream.phase = .streaming rest →
    endFrames stream.messages = [] ∧
      chunkBodies buffers stream.messages ++ rest = stream.received ∧
      (chunkBodies buffers stream.messages).length = stream.sentBytes ∧
      (chunkFrames stream.messages).length = stream.chunks ∧ stream.ended = none
  awaiting : ∀ chunk rest, stream.phase = .awaiting chunk rest →
    endFrames stream.messages = [] ∧
      chunkBodies buffers stream.messages ++ rest = stream.received ∧
      (chunkBodies buffers stream.messages).length = stream.sentBytes + chunk.length ∧
      (chunkFrames stream.messages).length = stream.chunks + 1 ∧ stream.ended = none
  closing : ∀ thrown, stream.phase = .closing thrown →
    endFrames stream.messages = [] ∧
      ((chunkFrames stream.messages).length = stream.chunks →
        (chunkBodies buffers stream.messages).length = stream.sentBytes) ∧
      (stream.sentBytes = response.totalBytes → stream.ended ≠ some .clean)

namespace ResponseStream

variable {buffers : BufferBase64} {response : StreamedResponse} {stream next : ResponseStream}
  {label : ResponseStreamLabel}

/-- A response without an end does not look complete. -/
theorem sound_of_endless (endless : endFrames stream.messages = []) : stream.Sound buffers := by
  rintro totalBytes ⟨_, _, envelope, listed, _⟩
  rw [endless] at listed
  exact absurd listed List.not_mem_nil

theorem announced_append {messages : List TunnelHttpResponseMessage}
    (message : TunnelHttpResponseMessage) (other : ∀ envelope, message ≠ .start envelope)
    (announced : ∀ totalBytes, (∃ envelope, .start envelope ∈ messages ∧
      envelope.totalBytes = totalBytes) ↔ totalBytes = response.totalBytes) (totalBytes : Nat) :
    (∃ envelope, .start envelope ∈ messages ++ [message] ∧ envelope.totalBytes = totalBytes) ↔
      totalBytes = response.totalBytes := by
  rw [← announced totalBytes]
  constructor
  · rintro ⟨envelope, listed, same⟩
    rcases List.mem_append.mp listed with earlier | last
    · exact ⟨envelope, earlier, same⟩
    · exact absurd (List.mem_singleton.mp last).symm (other envelope)
  · rintro ⟨envelope, listed, same⟩
    exact ⟨envelope, List.mem_append_left _ listed, same⟩

/-- An error or a cancellation between two chunks. -/
theorem Progress.close {rest : Bytes} (progress : Progress buffers response stream)
    (phase : stream.phase = .streaming rest) (thrown canceled : Bool) {ended : Option BodyEnd}
    (short : stream.sentBytes = response.totalBytes → ended ≠ some .clean) :
    Progress buffers response
      { stream with phase := .closing thrown, canceled := canceled, ended := ended } := by
  obtain ⟨endless, _, length, _, _⟩ := progress.streaming rest phase
  exact ⟨progress.announced, nofun, nofun, fun _ _ => ⟨endless, fun _ => length, short⟩⟩

/-- An error or a cancellation while a chunk is not acknowledged. -/
theorem Progress.abandon {chunk rest : Bytes} (progress : Progress buffers response stream)
    (phase : stream.phase = .awaiting chunk rest) (thrown canceled : Bool) :
    Progress buffers response
      { stream with phase := .closing thrown, canceled := canceled } := by
  obtain ⟨endless, _, _, count, unended⟩ := progress.awaiting chunk rest phase
  refine ⟨progress.announced, nofun, nofun, fun _ _ => ⟨endless, fun same => ?_, fun _ => ?_⟩⟩
  · change (chunkFrames stream.messages).length = stream.chunks at same
    omega
  · change stream.ended ≠ _
    rw [unended]
    exact nofun

/-- One chunk moves bytes from those still to be sent to those sent. -/
theorem Progress.advance {rest : Bytes} (progress : Progress buffers response stream)
    (phase : stream.phase = .streaming rest) (sending : ChunkSending) :
    Progress buffers response (stream.advance response rest sending) := by
  obtain ⟨endless, bodies, length, count, unended⟩ := progress.streaming rest phase
  have unclean : stream.sentBytes = response.totalBytes → stream.ended ≠ some .clean := by
    rw [unended]
    exact fun _ => nofun
  rw [ResponseStream.advance]
  by_cases stopped : stream.canceled = true
  · rw [if_pos stopped]
    exact progress.close phase false _ unclean
  rw [if_neg stopped]
  by_cases full : chunkBytes response.id stream.chunks ≤ 0
  · rw [if_pos full]
    exact progress.close phase true _ unclean
  rw [if_neg full]
  dsimp only
  generalize (chunkBytes response.id stream.chunks).toNat = room
  by_cases overrun : response.totalBytes < stream.sentBytes + (rest.take room).length
  · rw [if_pos overrun]
    exact progress.close phase true _ unclean
  rw [if_neg overrun]
  have announced := announced_append (.chunk ⟨response.id, stream.chunks,
    toBase64 (rest.take room)⟩) nofun progress.announced
  have moved : chunkBodies buffers stream.messages ++ rest.take room ++ rest.drop room =
      stream.received := by
    rw [List.append_assoc, List.take_append_drop, bodies]
  cases sending with
  | awaited =>
      refine ⟨announced, nofun, ?_, nofun⟩
      rintro _ _ ⟨⟩
      refine ⟨?_, ?_, ?_, ?_, unended⟩
      · rw [endFrames_chunk, endless]
      · rw [chunkBodies_chunk, moved]
      · rw [chunkBodies_chunk, List.length_append, length]
      · rw [chunkFrames_chunk, List.length_append, count, List.length_singleton]
  | plain =>
      refine ⟨announced, ?_, nofun, nofun⟩
      rintro _ ⟨⟩
      refine ⟨?_, ?_, ?_, ?_, unended⟩
      · rw [endFrames_chunk, endless]
      · rw [chunkBodies_chunk, moved]
      · rw [chunkBodies_chunk, List.length_append, length]
      · rw [chunkFrames_chunk, List.length_append, count, List.length_singleton]
  | refused => exact progress.close phase true _ unclean

/-- An acknowledged chunk is counted. -/
theorem Progress.acknowledge {chunk rest : Bytes} (progress : Progress buffers response stream)
    (phase : stream.phase = .awaiting chunk rest) :
    Progress buffers response
      { stream with
        phase := .streaming rest
        sentBytes := stream.sentBytes + chunk.length
        chunks := stream.chunks + 1 } := by
  refine ⟨progress.announced, ?_, nofun, nofun⟩
  rintro _ ⟨⟩
  exact progress.awaiting chunk rest phase

/-- The messages of a finished response: nothing new, or an end. -/
theorem Progress.finish (progress : Progress buffers response stream) {ended : Option BodyEnd} :
    Progress buffers response
      { stream with
        phase := .finished, ended := ended, messages := stream.sendEnd response } := by
  refine ⟨?_, nofun, nofun, nofun⟩
  change ∀ totalBytes, (∃ envelope, .start envelope ∈ sendEnd response stream ∧ _) ↔ _
  rw [sendEnd]
  split
  · exact progress.announced
  · exact announced_append (.finish _) nofun progress.announced

/-- Before the end no end is sent. -/
theorem Progress.endless (progress : Progress buffers response stream)
    (going : stream.phase ≠ .finished) : endFrames stream.messages = [] := by
  cases phase : stream.phase with
  | streaming rest => exact (progress.streaming rest phase).1
  | awaiting chunk rest => exact (progress.awaiting chunk rest phase).1
  | closing thrown => exact (progress.closing thrown phase).1
  | finished => exact absurd phase going

/-- Every step makes progress. -/
theorem Progress.step (progress : Progress buffers response stream)
    (stepped : (proxyAndSendStreamingHttpResponse response).step stream label = some next) :
    Progress buffers response next := by
  simp only [proxyAndSendStreamingHttpResponse] at stepped
  split at stepped
  case h_1 bytes phase =>
    obtain rfl := Option.some.inj stepped
    obtain ⟨endless, bodies, length, count, unended⟩ := progress.streaming [] phase
    rw [List.append_nil] at bodies
    refine ⟨progress.announced, ?_, nofun, nofun⟩
    rintro _ ⟨⟩
    exact ⟨endless, by rw [bodies], length, count, unended⟩
  case h_2 phase =>
    split at stepped
    · rename_i short
      obtain rfl := Option.some.inj stepped
      exact progress.close phase true _ fun same => absurd same short
    · obtain rfl := Option.some.inj stepped
      exact progress.finish
  case h_3 phase =>
    obtain rfl := Option.some.inj stepped
    exact progress.close phase true _ fun _ => nofun
  case h_4 sending byte rest phase =>
    obtain rfl := Option.some.inj stepped
    exact progress.advance phase sending
  case h_5 sequence chunk rest phase =>
    split at stepped
    · obtain rfl := Option.some.inj stepped
      exact progress.acknowledge phase
    · obtain rfl := Option.some.inj stepped
      exact progress.abandon phase true _
  case h_6 chunk rest phase =>
    obtain rfl := Option.some.inj stepped
    exact progress.abandon phase true _
  case h_7 chunk rest phase =>
    obtain rfl := Option.some.inj stepped
    exact progress.abandon phase true true
  case h_8 rest phase =>
    obtain rfl := Option.some.inj stepped
    exact ⟨progress.announced, progress.streaming, progress.awaiting, progress.closing⟩
  case h_9 thrown phase =>
    obtain rfl := Option.some.inj stepped
    exact ⟨progress.announced, progress.streaming, progress.awaiting, progress.closing⟩
  case h_10 phase =>
    obtain rfl := Option.some.inj stepped
    exact progress.finish
  case h_11 phase =>
    obtain rfl := Option.some.inj stepped
    exact ⟨progress.announced, nofun, nofun, nofun⟩
  case h_12 => cases stepped

theorem phase_advance {rest : Bytes} {sending : ChunkSending}
    (advanced : stream.advance response rest sending = next) : next.phase ≠ .finished := by
  rw [ResponseStream.advance] at advanced
  by_cases stopped : stream.canceled = true
  · rw [if_pos stopped] at advanced
    exact advanced ▸ nofun
  rw [if_neg stopped] at advanced
  by_cases full : chunkBytes response.id stream.chunks ≤ 0
  · rw [if_pos full] at advanced
    exact advanced ▸ nofun
  rw [if_neg full] at advanced
  dsimp only at advanced
  generalize (chunkBytes response.id stream.chunks).toNat = room at advanced
  by_cases overrun : response.totalBytes < stream.sentBytes + (rest.take room).length
  · rw [if_pos overrun] at advanced
    exact advanced ▸ nofun
  rw [if_neg overrun] at advanced
  cases sending <;> exact advanced ▸ nofun

/-- The steps that finish a response: the end of the body after the last announced byte, and the
handling of an error or a cancellation. -/
theorem step_finished
    (stepped : (proxyAndSendStreamingHttpResponse response).step stream label = some next)
    (finished : next.phase = .finished) :
    (label = .done ∧ stream.phase = .streaming [] ∧ stream.sentBytes = response.totalBytes ∧
        next.ended = some .clean ∧ next.received = stream.received ∧
        next.messages = stream.sendEnd response) ∨
      (label = .settle ∧ stream.phase = .closing true ∧ next.ended = stream.ended ∧
        next.messages = stream.sendEnd response) ∨
      (stream.phase = .closing false ∧ next.messages = stream.messages) := by
  simp only [proxyAndSendStreamingHttpResponse] at stepped
  split at stepped
  case h_2 phase =>
    split at stepped
    · obtain rfl := Option.some.inj stepped
      cases finished
    · rename_i complete
      obtain rfl := Option.some.inj stepped
      exact .inl ⟨rfl, phase, not_not.mp complete, rfl, rfl, rfl⟩
  case h_4 sending byte rest phase =>
    exact absurd finished (phase_advance (Option.some.inj stepped))
  case h_5 sequence chunk rest phase =>
    split at stepped
    · obtain rfl := Option.some.inj stepped
      cases finished
    · obtain rfl := Option.some.inj stepped
      cases finished
  case h_8 rest phase =>
    obtain rfl := Option.some.inj stepped
    exact absurd (phase.symm.trans finished) nofun
  case h_9 thrown phase =>
    obtain rfl := Option.some.inj stepped
    exact absurd (phase.symm.trans finished) nofun
  case h_10 phase =>
    obtain rfl := Option.some.inj stepped
    exact .inr (.inl ⟨rfl, phase, rfl, rfl⟩)
  case h_11 phase =>
    obtain rfl := Option.some.inj stepped
    exact .inr (.inr ⟨phase, rfl⟩)
  all_goals
    cases stepped
    try cases finished

/-- What an end makes of the messages. -/
theorem looksComplete_sendEnd_iff (progress : Progress buffers response stream)
    (endless : endFrames stream.messages = []) (totalBytes : Nat) :
    LooksComplete buffers totalBytes (stream.sendEnd response) ↔
      stream.canceled = false ∧ totalBytes = response.totalBytes ∧
        (chunkBodies buffers stream.messages).length = totalBytes ∧
        (chunkFrames stream.messages).length = stream.chunks := by
  rw [sendEnd]
  by_cases stopped : stream.canceled = true
  · rw [if_pos stopped, stopped]
    refine iff_of_false ?_ (fun same => absurd same.1 nofun)
    rintro ⟨_, _, envelope, listed, _⟩
    rw [endless] at listed
    exact absurd listed List.not_mem_nil
  · rw [if_neg stopped, LooksComplete,
      announced_append (.finish _) nofun progress.announced,
      chunkBodies_finish, endFrames_finish, chunkFrames_finish, endless, List.nil_append]
    have running : stream.canceled = false := Bool.eq_false_iff.mpr stopped
    constructor
    · rintro ⟨total, length, envelope, listed, count⟩
      rw [List.mem_singleton.mp listed] at count
      exact ⟨running, total, length, count.symm⟩
    · rintro ⟨_, total, length, count⟩
      exact ⟨total, length, _, List.mem_singleton_self _, count.symm⟩

/-- Handling an error finishes a response. -/
theorem finished_of_late (late : HandlesLateError response stream label)
    (stepped : (proxyAndSendStreamingHttpResponse response).step stream label = some next) :
    next.phase = .finished := by
  obtain ⟨rfl, phase, _⟩ := late
  simp only [proxyAndSendStreamingHttpResponse, phase] at stepped
  exact Option.some.inj stepped ▸ rfl

/-- The step of a response that looks complete only if it is: every step but the handling of an
error that comes after the last announced byte. -/
theorem Progress.sound_step_iff (progress : Progress buffers response stream)
    (stepped : (proxyAndSendStreamingHttpResponse response).step stream label = some next) :
    next.Sound buffers ↔ ¬ HandlesLateError response stream label := by
  by_cases finished : next.phase = .finished
  · rcases step_finished stepped finished with ⟨rfl, phase, total, ended, received, messages⟩ |
      ⟨rfl, phase, ended, messages⟩ | ⟨phase, messages⟩
    · obtain ⟨endless, bodies, length, _, _⟩ := progress.streaming [] phase
      rw [List.append_nil] at bodies
      refine iff_of_true (fun totalBytes complete => ?_) (fun late => absurd late.1 nofun)
      rw [messages, looksComplete_sendEnd_iff progress endless] at complete
      obtain ⟨running, _, counted, _⟩ := complete
      refine ⟨ended, by rw [received, ← bodies, counted], ?_⟩
      rw [messages, sendEnd, if_neg (Bool.eq_false_iff.mp running), chunkBodies_finish, received,
        bodies]
    · obtain ⟨endless, counted, unclean⟩ := progress.closing true phase
      constructor
      · rintro sound ⟨_, _, running, total, count⟩
        have complete : LooksComplete buffers response.totalBytes next.messages := by
          rw [messages, looksComplete_sendEnd_iff progress endless]
          exact ⟨running, rfl, (counted count).trans total, count⟩
        exact unclean total (ended ▸ (sound _ complete).1)
      · intro timely totalBytes complete
        rw [messages, looksComplete_sendEnd_iff progress endless] at complete
        obtain ⟨running, rfl, total, count⟩ := complete
        exact absurd ⟨rfl, phase, running, (counted count).symm.trans total, count⟩ timely
    · have endless := (progress.closing false phase).1
      refine iff_of_true (sound_of_endless (messages ▸ endless)) ?_
      rintro ⟨_, thrown, _⟩
      exact absurd (phase.symm.trans thrown) nofun
  · exact iff_of_true (sound_of_endless ((progress.step stepped).endless finished))
      fun late => finished (finished_of_late late stepped)

theorem progress_start (buffers : BufferBase64) (response : StreamedResponse) (canceled : Bool) :
    Progress buffers response (start response canceled) := by
  refine ⟨fun totalBytes => ⟨?_, ?_⟩, ?_, nofun, nofun⟩
  · rintro ⟨envelope, listed, rfl⟩
    rw [start, List.mem_singleton] at listed
    rw [TunnelHttpResponseMessage.start.inj listed]
  · rintro rfl
    exact ⟨_, List.mem_singleton_self _, rfl⟩
  · rintro _ ⟨⟩
    exact ⟨rfl, rfl, rfl, rfl, rfl⟩

/-- A response in progress looks complete only if it is in exactly the runs without a late error. -/
theorem Progress.sound_run_iff (progress : Progress buffers response stream)
    (sound : stream.Sound buffers) {labels : List ResponseStreamLabel}
    (run : (proxyAndSendStreamingHttpResponse response).Run (fun _ _ => True) stream labels next) :
    next.Sound buffers ↔ (proxyAndSendStreamingHttpResponse response).Run
      (fun state label => ¬ HandlesLateError response state label) stream labels next := by
  induction run with
  | nil state => exact iff_of_true sound (.nil state)
  | @cons source middle target label labels _ stepped rest ih =>
      have kept := progress.sound_step_iff stepped
      by_cases late : HandlesLateError response source label
      · have finished := finished_of_late late stepped
        cases rest with
        | nil =>
            refine kept.trans ⟨fun timely => absurd late timely, fun guarded => ?_⟩
            cases guarded with
            | cons timely _ _ => exact timely
        | cons _ further _ =>
            rw [step_of_finished finished] at further
            cases further
      · rw [ih (progress.step stepped) (kept.mpr late)]
        constructor
        · exact fun guarded => .cons late stepped guarded
        · rintro (_ | ⟨_, again, guarded⟩)
          rw [stepped] at again
          obtain rfl := Option.some.inj again
          exact guarded

/-- A cancelled response sends no end. -/
theorem silent_step (canceled : stream.canceled = true)
    (stepped : (proxyAndSendStreamingHttpResponse response).step stream label = some next) :
    next.canceled = true ∧ endFrames next.messages = endFrames stream.messages := by
  have unsent : stream.sendEnd response = stream.messages := if_pos canceled
  simp only [proxyAndSendStreamingHttpResponse, unsent] at stepped
  split at stepped
  case h_2 phase =>
    split at stepped
    · obtain rfl := Option.some.inj stepped
      exact ⟨canceled, rfl⟩
    · obtain rfl := Option.some.inj stepped
      exact ⟨canceled, rfl⟩
  case h_4 sending byte rest phase =>
    rw [ResponseStream.advance, if_pos canceled] at stepped
    obtain rfl := Option.some.inj stepped
    exact ⟨canceled, rfl⟩
  case h_5 sequence chunk rest phase =>
    split at stepped
    · obtain rfl := Option.some.inj stepped
      exact ⟨canceled, rfl⟩
    · obtain rfl := Option.some.inj stepped
      exact ⟨canceled, rfl⟩
  case h_7 | h_8 | h_9 =>
    obtain rfl := Option.some.inj stepped
    exact ⟨rfl, rfl⟩
  case h_12 => cases stepped
  all_goals
    obtain rfl := Option.some.inj stepped
    exact ⟨canceled, rfl⟩

/-- A cancelled response sends no end, however long it runs. -/
theorem silent_of_run (canceled : stream.canceled = true) {labels : List ResponseStreamLabel}
    (run : (proxyAndSendStreamingHttpResponse response).Run (fun _ _ => True) stream labels next) :
    endFrames next.messages = endFrames stream.messages := by
  induction run with
  | nil state => rfl
  | cons _ stepped _ ih =>
      obtain ⟨still, same⟩ := silent_step canceled stepped
      exact (ih still).trans same

end ResponseStream

/-- **Streaming.** A response that was started looks complete only if its body ended after exactly
the announced bytes and the chunks carry them, in exactly the runs that handle no error after the
last announced byte; and after a cancellation no end is sent. -/
theorem streaming_sound_iff (buffers : BufferBase64) (response : StreamedResponse)
    (canceled : Bool) {before after : List ResponseStreamLabel} {middle target : ResponseStream}
    (first : (proxyAndSendStreamingHttpResponse response).Run (fun _ _ => True)
      (.start response canceled) before middle)
    (second : (proxyAndSendStreamingHttpResponse response).Run (fun _ _ => True) middle after
      target) :
    (target.Sound buffers ∧
        (middle.canceled = true → endFrames target.messages = endFrames middle.messages)) ↔
      (proxyAndSendStreamingHttpResponse response).Run
        (fun stream label => ¬ HandlesLateError response stream label)
        (.start response canceled) (before ++ after) target := by
  rw [and_iff_left fun stopped => ResponseStream.silent_of_run stopped second]
  exact (ResponseStream.progress_start buffers response canceled).sound_run_iff
    (ResponseStream.sound_of_endless rfl) (first.append second)

/-- A response of three bytes. -/
def threeBytes : StreamedResponse := ⟨units "1", 200, [], 3⟩

/-- The messages that carry three bytes. -/
def threeByteMessages : List TunnelHttpResponseMessage :=
  [.start ⟨units "1", 200, [], 3⟩, .chunk ⟨units "1", 0, toBase64 [1, 2, 3]⟩,
    .finish ⟨units "1", 1⟩]

theorem looksComplete_threeBytes : LooksComplete platformBuffers 3 threeByteMessages := by
  have split : threeByteMessages = [.start ⟨units "1", 200, [], 3⟩] ++
    [.chunk ⟨units "1", 0, toBase64 [1, 2, 3]⟩] ++ [.finish ⟨units "1", 1⟩] := rfl
  refine ⟨⟨_, List.mem_cons_self, rfl⟩, ?_, ⟨units "1", 1⟩, List.mem_singleton_self _, rfl⟩
  rw [split, chunkBodies_finish, chunkBodies_chunk]
  rfl

/-- Three bytes are streamed and the body ends. -/
theorem streaming_sound_iff_clean :
    ∃ target : ResponseStream, target.messages = threeByteMessages ∧
      target.Sound platformBuffers := by
  have guarded := fun labels source target => @Machine.evaluate_sound _ _
    (proxyAndSendStreamingHttpResponse threeBytes)
    (fun state label => ¬ HandlesLateError threeBytes state label) source target labels inferInstance
  let middle : ResponseStream :=
    ⟨.awaiting [1, 2, 3] [], false, 0, 0, threeByteMessages.take 2, [1, 2, 3], none⟩
  let target : ResponseStream :=
    ⟨.finished, false, 3, 1, threeByteMessages, [1, 2, 3], some .clean⟩
  have first := guarded [.read [1, 2, 3], .advance .awaited] (.start threeBytes false) middle
    (by decide +kernel)
  have second := guarded [.acknowledged (some 0), .done] middle target (by decide +kernel)
  have sound := (streaming_sound_iff platformBuffers threeBytes false
    (first.mono fun _ _ _ => trivial) (second.mono fun _ _ _ => trivial)).mpr
      (first.append second)
  exact ⟨target, rfl, sound.1⟩

/-- A body fails after its last announced byte, and the response looks complete. -/
theorem looksComplete_of_late_error :
    ∃ target, (proxyAndSendStreamingHttpResponse threeBytes).Run (fun _ _ => True)
        (.start threeBytes false)
        [.read [1, 2, 3], .advance .awaited, .acknowledged (some 0), .failed, .settle] target ∧
      ¬ target.Sound platformBuffers := by
  let target : ResponseStream :=
    ⟨.finished, false, 3, 1, threeByteMessages, [1, 2, 3], some .failed⟩
  have evaluated : (proxyAndSendStreamingHttpResponse threeBytes).evaluate (fun _ _ => True)
      (.start threeBytes false)
      [.read [1, 2, 3], .advance .awaited, .acknowledged (some 0), .failed, .settle] =
        some target := by
    decide +kernel
  refine ⟨target, Machine.evaluate_sound evaluated, fun sound => ?_⟩
  have clean := (sound 3 looksComplete_threeBytes).1
  exact absurd clean (by decide)

end Kb1Daemon
