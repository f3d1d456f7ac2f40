import Kb1Daemon.Foundation.Firsts
import Kb1Daemon.Foundation.JsNumber
import Kb1Daemon.Foundation.Table
import Kb1Daemon.Tunnel.Base64
import Mathlib.Data.List.Perm.Subperm

/-! # Assembling chunked requests

A request that is too large for one message comes as a start, chunks and an end. The assembler
keeps the first chunk of every sequence number, whatever their order, as long as the bytes stay
within what the start announces and within its own limit. At the end it returns the request exactly
when the sequence numbers are those below the announced number of chunks and the bytes are complete
(`assembled_iff`).
-/

namespace Kb1Daemon

def tunnelHttpPendingByteLimit : Nat := 8 * 1024 * 1024

structure TunnelHttpRequestEnvelope where
  id : JsString
  method : JsString
  path : JsString
  headers : List (JsString × JsString)
  bodyB64 : Option JsString
  deriving DecidableEq, Repr

structure TunnelHttpRequestStartEnvelope where
  id : JsString
  method : JsString
  path : JsString
  headers : List (JsString × JsString)
  totalBytes : JsNumber
  deriving DecidableEq, Repr

structure TunnelHttpRequestChunkEnvelope where
  id : JsString
  sequence : JsNumber
  bodyB64 : JsString
  deriving DecidableEq, Repr

structure TunnelHttpRequestEndEnvelope where
  id : JsString
  chunks : JsNumber
  deriving DecidableEq, Repr

structure ChunkedHttpRequestDraft where
  start : TunnelHttpRequestStartEnvelope
  chunks : Table JsNumber Bytes
  receivedBytes : Nat
  deriving DecidableEq

structure ChunkedHttpRequestAssembler where
  drafts : Table JsString ChunkedHttpRequestDraft

/-- The chunks from a sequence number on; none if one of them is missing. -/
def orderedChunks (chunks : Table JsNumber Bytes) : (count sequence : Nat) → Option (List Bytes)
  | 0, _ => some []
  | count + 1, sequence =>
      (chunks.get (.ofNat sequence)).bind fun chunk =>
        (orderedChunks chunks count (sequence + 1)).map (chunk :: ·)

namespace ChunkedHttpRequestAssembler

variable (buffers : BufferBase64)

def start (assembler : ChunkedHttpRequestAssembler) (message : TunnelHttpRequestStartEnvelope) :
    ChunkedHttpRequestAssembler :=
  ⟨assembler.drafts.set message.id ⟨message, .empty, 0⟩⟩

def chunk (assembler : ChunkedHttpRequestAssembler) (message : TunnelHttpRequestChunkEnvelope) :
    ChunkedHttpRequestAssembler :=
  match assembler.drafts.get message.id with
  | none => assembler
  | some draft =>
      if (draft.chunks.get message.sequence).isSome then assembler
      else
        let chunk := buffers.fromBase64 message.bodyB64
        if draft.start.totalBytes.isBelow (draft.receivedBytes + chunk.length) ∨
            tunnelHttpPendingByteLimit < draft.receivedBytes + chunk.length then
          ⟨assembler.drafts.delete message.id⟩
        else
          ⟨assembler.drafts.set message.id
            { draft with
              chunks := draft.chunks.set message.sequence chunk
              receivedBytes := draft.receivedBytes + chunk.length }⟩

/-- The request a draft makes. -/
def assemble (draft : ChunkedHttpRequestDraft) (message : TunnelHttpRequestEndEnvelope) :
    Option TunnelHttpRequestEnvelope :=
  if JsNumber.ofNat draft.chunks.entries.length ≠ message.chunks ∨
      JsNumber.ofNat draft.receivedBytes ≠ draft.start.totalBytes then none
  else
    (orderedChunks draft.chunks draft.chunks.entries.length 0).map fun ordered =>
      { id := draft.start.id
        method := draft.start.method
        path := draft.start.path
        headers := draft.start.headers
        bodyB64 := some (toBase64 ordered.flatten) }

def endRequest (assembler : ChunkedHttpRequestAssembler) (message : TunnelHttpRequestEndEnvelope) :
    ChunkedHttpRequestAssembler × Option TunnelHttpRequestEnvelope :=
  (⟨assembler.drafts.delete message.id⟩,
    (assembler.drafts.get message.id).bind fun draft => assemble draft message)

def cancel (assembler : ChunkedHttpRequestAssembler) (id : JsString) :
    ChunkedHttpRequestAssembler :=
  ⟨assembler.drafts.delete id⟩

/-- A message that the assembler takes. -/
inductive Call where
  | start (message : TunnelHttpRequestStartEnvelope)
  | chunk (message : TunnelHttpRequestChunkEnvelope)
  | endRequest (message : TunnelHttpRequestEndEnvelope)
  | cancel (id : JsString)
  deriving DecidableEq, Repr

/-- The request a message is about. -/
def Call.id : Call → JsString
  | .start message => message.id
  | .chunk message => message.id
  | .endRequest message => message.id
  | .cancel id => id

/-- A message is a chunk. -/
def Call.IsChunk : Call → Prop
  | .chunk _ => True
  | _ => False

instance : DecidablePred Call.IsChunk
  | .chunk _ => .isTrue trivial
  | .start _ => .isFalse id
  | .endRequest _ => .isFalse id
  | .cancel _ => .isFalse id

def handle (assembler : ChunkedHttpRequestAssembler) : Call → ChunkedHttpRequestAssembler
  | .start message => assembler.start message
  | .chunk message => assembler.chunk buffers message
  | .endRequest message => (assembler.endRequest message).1
  | .cancel id => assembler.cancel id

def handleAll (assembler : ChunkedHttpRequestAssembler) (calls : List Call) :
    ChunkedHttpRequestAssembler :=
  calls.foldl (handle buffers) assembler

/-- The message as a chunk of a request. -/
def Call.chunkOf (id : JsString) : Call → Option TunnelHttpRequestChunkEnvelope
  | .chunk message => if message.id = id then some message else none
  | _ => none

/-- The chunks of a request among the messages. -/
def chunksOf (id : JsString) (calls : List Call) : List TunnelHttpRequestChunkEnvelope :=
  calls.filterMap (Call.chunkOf id)

/-- The chunk that came first with its sequence number, for each of them. -/
def accepted (chunks : List TunnelHttpRequestChunkEnvelope) : List TunnelHttpRequestChunkEnvelope :=
  chunks.firsts TunnelHttpRequestChunkEnvelope.sequence

/-- The number of bytes of the chunks that came first. -/
def acceptedBytes (chunks : List TunnelHttpRequestChunkEnvelope) : Nat :=
  ((accepted chunks).map fun chunk => (buffers.fromBase64 chunk.bodyB64).length).sum

/-- The body that came first with a sequence number. -/
def firstBody (chunks : List TunnelHttpRequestChunkEnvelope) (sequence : Nat) : Bytes :=
  ((chunks.find? fun chunk => chunk.sequence = .ofNat sequence).map fun chunk =>
    buffers.fromBase64 chunk.bodyB64).getD []

/-- The bytes stay within what is announced and within the limit, after every chunk. -/
def Fits (totalBytes : JsNumber) (chunks : List TunnelHttpRequestChunkEnvelope) : Prop :=
  ∀ front, front <+: chunks → front ≠ [] →
    totalBytes.isBelow (acceptedBytes buffers front) = false ∧
      acceptedBytes buffers front ≤ tunnelHttpPendingByteLimit

section Drafts

variable {buffers : BufferBase64}

/-- A message about one request leaves the drafts of the others. -/
theorem get_handle_of_ne (assembler : ChunkedHttpRequestAssembler) {call : Call} {id : JsString}
    (other : id ≠ call.id) :
    (assembler.handle buffers call).drafts.get id = assembler.drafts.get id := by
  cases call with
  | start message => exact (Table.get_set _ _ _ _).trans (if_neg other)
  | chunk message =>
      rw [handle, chunk]
      cases assembler.drafts.get message.id with
      | none => rfl
      | some draft =>
          dsimp only
          split_ifs
          · rfl
          · exact (Table.get_delete _ _ _).trans (if_neg other)
          · exact (Table.get_set _ _ _ _).trans (if_neg other)
  | endRequest message => exact (Table.get_delete _ _ _).trans (if_neg other)
  | cancel id => exact (Table.get_delete _ _ _).trans (if_neg other)

/-- A draft after a chunk of its request. -/
def accept (buffers : BufferBase64) (draft : ChunkedHttpRequestDraft)
    (message : TunnelHttpRequestChunkEnvelope) : Option ChunkedHttpRequestDraft :=
  if (draft.chunks.get message.sequence).isSome then some draft
  else if draft.start.totalBytes.isBelow
        (draft.receivedBytes + (buffers.fromBase64 message.bodyB64).length) ∨
      tunnelHttpPendingByteLimit <
        draft.receivedBytes + (buffers.fromBase64 message.bodyB64).length then none
  else
    some { draft with
      chunks := draft.chunks.set message.sequence (buffers.fromBase64 message.bodyB64)
      receivedBytes := draft.receivedBytes + (buffers.fromBase64 message.bodyB64).length }

theorem get_chunk (assembler : ChunkedHttpRequestAssembler)
    (message : TunnelHttpRequestChunkEnvelope) :
    (assembler.chunk buffers message).drafts.get message.id =
      (assembler.drafts.get message.id).bind fun draft => accept buffers draft message := by
  rw [chunk]
  cases found : assembler.drafts.get message.id with
  | none => exact found
  | some draft =>
      rw [Option.bind_some, accept]
      dsimp only
      split_ifs
      · exact found
      · exact (Table.get_delete _ _ _).trans (if_pos rfl)
      · exact (Table.get_set _ _ _ _).trans (if_pos rfl)

/-- A draft after chunks of its request. -/
def acceptAll (buffers : BufferBase64) (draft : Option ChunkedHttpRequestDraft)
    (chunks : List TunnelHttpRequestChunkEnvelope) : Option ChunkedHttpRequestDraft :=
  chunks.foldl (fun draft message => draft.bind fun draft => accept buffers draft message) draft

/-- Whatever happens to other requests, a draft is made of the chunks of its own. -/
theorem get_handleAll (assembler : ChunkedHttpRequestAssembler) {calls : List Call} {id : JsString}
    (own : ∀ call ∈ calls, call.id = id → call.IsChunk) :
    (assembler.handleAll buffers calls).drafts.get id =
      acceptAll buffers (assembler.drafts.get id) (chunksOf id calls) := by
  induction calls generalizing assembler with
  | nil => rfl
  | cons call calls ih =>
      have later := ih (assembler.handle buffers call) fun other listed =>
        own other (List.mem_cons_of_mem _ listed)
      refine later.trans ?_
      by_cases mine : call.id = id
      · have isChunk := own call List.mem_cons_self mine
        cases call with
        | chunk message =>
            dsimp only [Call.id] at mine
            subst mine
            have first : Call.chunkOf message.id (.chunk message) = some message := if_pos rfl
            rw [chunksOf, chunksOf, List.filterMap_cons_some first, handle, get_chunk]
            rfl
        | start => exact isChunk.elim
        | endRequest => exact isChunk.elim
        | cancel => exact isChunk.elim
      · have skipped : chunksOf id (call :: calls) = chunksOf id calls := by
          cases call with
          | chunk message => exact List.filterMap_cons_none (if_neg mine)
          | start => rfl
          | endRequest => rfl
          | cancel => rfl
        rw [skipped, get_handle_of_ne assembler (Ne.symm mine)]

end Drafts

/-- A draft that keeps the chunks that came first. -/
structure Collected (buffers : BufferBase64) (message : TunnelHttpRequestStartEnvelope)
    (chunks : List TunnelHttpRequestChunkEnvelope) (draft : ChunkedHttpRequestDraft) : Prop where
  start : draft.start = message
  entries : draft.chunks.entries =
    (accepted chunks).map fun chunk => (chunk.sequence, buffers.fromBase64 chunk.bodyB64)
  received : draft.receivedBytes = acceptedBytes buffers chunks

section Collect

variable {buffers : BufferBase64} {message : TunnelHttpRequestStartEnvelope}
  {chunks : List TunnelHttpRequestChunkEnvelope} {draft : ChunkedHttpRequestDraft}

theorem acceptedBytes_concat (chunks : List TunnelHttpRequestChunkEnvelope)
    (chunk : TunnelHttpRequestChunkEnvelope) :
    acceptedBytes buffers (chunks ++ [chunk]) = acceptedBytes buffers chunks +
      if chunk.sequence ∈ chunks.map TunnelHttpRequestChunkEnvelope.sequence then 0
      else (buffers.fromBase64 chunk.bodyB64).length := by
  rw [acceptedBytes, acceptedBytes, accepted, accepted, List.firsts_concat]
  split_ifs <;> simp

/-- Fewer chunks have no more bytes. -/
theorem acceptedBytes_le {front : List TunnelHttpRequestChunkEnvelope} (within : front <+: chunks) :
    acceptedBytes buffers front ≤ acceptedBytes buffers chunks := by
  obtain ⟨back, rfl⟩ := within
  obtain ⟨more, same⟩ := List.firsts_prefix TunnelHttpRequestChunkEnvelope.sequence front back
  rw [acceptedBytes, acceptedBytes, accepted, accepted, ← same, List.map_append, List.sum_append]
  exact Nat.le_add_right _ _

theorem Collected.get (collected : Collected buffers message chunks draft) (sequence : JsNumber) :
    draft.chunks.get sequence =
      (chunks.find? fun chunk => chunk.sequence = sequence).map fun chunk =>
        buffers.fromBase64 chunk.bodyB64 := by
  rw [Table.get, collected.entries, List.find?_map, Option.map_map,
    ← List.find?_firsts TunnelHttpRequestChunkEnvelope.sequence]
  rfl

theorem Collected.seen_iff (collected : Collected buffers message chunks draft)
    (sequence : JsNumber) : (draft.chunks.get sequence).isSome = true ↔
      sequence ∈ chunks.map TunnelHttpRequestChunkEnvelope.sequence := by
  rw [collected.get, Option.isSome_map, List.find?_isSome, List.mem_map]
  simp only [decide_eq_true_eq]

/-- Chunks fit when each of them does. -/
theorem fits_concat_iff {totalBytes : JsNumber} {chunk : TunnelHttpRequestChunkEnvelope} :
    Fits buffers totalBytes (chunks ++ [chunk]) ↔ Fits buffers totalBytes chunks ∧
      totalBytes.isBelow (acceptedBytes buffers (chunks ++ [chunk])) = false ∧
        acceptedBytes buffers (chunks ++ [chunk]) ≤ tunnelHttpPendingByteLimit := by
  constructor
  · intro fits
    refine ⟨fun front within => fits front (within.trans (List.prefix_append _ _)), ?_⟩
    exact fits _ List.prefix_rfl (List.append_ne_nil_of_right_ne_nil _ (List.cons_ne_nil _ _))
  · rintro ⟨fits, last⟩ front within some
    rcases List.prefix_concat_iff.mp within with rfl | inside
    · exact last
    · exact fits front inside some

/-- A draft keeps another chunk if its number is new and the bytes fit. -/
theorem Collected.accept (collected : Collected buffers message chunks draft)
    (fits : Fits buffers message.totalBytes chunks) (chunk : TunnelHttpRequestChunkEnvelope) :
    (Fits buffers message.totalBytes (chunks ++ [chunk]) →
        ∃ next, ChunkedHttpRequestAssembler.accept buffers draft chunk = some next ∧
          Collected buffers message (chunks ++ [chunk]) next) ∧
      (¬ Fits buffers message.totalBytes (chunks ++ [chunk]) →
        ChunkedHttpRequestAssembler.accept buffers draft chunk = none) := by
  have bytes := @acceptedBytes_concat buffers chunks chunk
  rw [ChunkedHttpRequestAssembler.accept, fits_concat_iff, collected.start, collected.received]
  by_cases seen : chunk.sequence ∈ chunks.map TunnelHttpRequestChunkEnvelope.sequence
  · rw [if_pos ((collected.seen_iff _).mpr seen)]
    rw [if_pos seen, Nat.add_zero] at bytes
    have some : chunks ≠ [] := by
      rintro rfl
      cases seen
    refine ⟨fun _ => ⟨draft, rfl, collected.start, ?_, collected.received.trans bytes.symm⟩,
      fun exceeded => absurd ⟨fits, ?_⟩ exceeded⟩
    · rw [collected.entries, accepted, accepted, List.firsts_concat, if_pos seen, List.append_nil]
    · rw [bytes]
      exact fits chunks List.prefix_rfl some
  · rw [if_neg fun found => seen ((collected.seen_iff _).mp found)]
    rw [if_neg seen] at bytes
    rw [← bytes]
    constructor
    · rintro ⟨_, below, within⟩
      refine ⟨_, if_neg ?_, rfl, ?_, rfl⟩
      · rintro (above | large)
        · exact Bool.false_ne_true (below.symm.trans above)
        · exact absurd within (Nat.not_le.mpr large)
      · have absent : ¬ (draft.chunks.entries.any fun entry => entry.1 = chunk.sequence) = true := by
          intro present
          rw [List.any_eq_true] at present
          obtain ⟨entry, listed, same⟩ := present
          exact seen ((collected.seen_iff _).mp (Table.isSome_get_iff.mpr
            ⟨entry, listed, of_decide_eq_true same⟩))
        dsimp only
        rw [Table.set, if_neg absent, collected.entries, accepted, accepted, List.firsts_concat,
          if_neg seen, List.map_append]
        rfl
    · intro exceeded
      refine if_pos ?_
      by_contra within
      rw [not_or] at within
      exact exceeded ⟨fits, Bool.eq_false_iff.mpr within.1, Nat.not_lt.mp within.2⟩

/-- **Collecting.** After any chunks a draft keeps the ones that came first, as long as the bytes
fit. -/
theorem acceptAll_spec (buffers : BufferBase64) (message : TunnelHttpRequestStartEnvelope)
    (chunks : List TunnelHttpRequestChunkEnvelope) :
    (Fits buffers message.totalBytes chunks →
        ∃ draft, acceptAll buffers (some ⟨message, .empty, 0⟩) chunks = some draft ∧
          Collected buffers message chunks draft) ∧
      (¬ Fits buffers message.totalBytes chunks →
        acceptAll buffers (some ⟨message, .empty, 0⟩) chunks = none) := by
  induction chunks using List.reverseRecOn with
  | nil =>
      refine ⟨fun _ => ⟨_, rfl, rfl, rfl, rfl⟩, fun exceeded => absurd ?_ exceeded⟩
      exact fun front within some => absurd (List.prefix_nil.mp within) some
  | append_singleton chunks chunk ih =>
      have last : acceptAll buffers (some ⟨message, .empty, 0⟩) (chunks ++ [chunk]) =
          (acceptAll buffers (some ⟨message, .empty, 0⟩) chunks).bind fun draft =>
            accept buffers draft chunk := by
        rw [acceptAll, List.foldl_concat]
        rfl
      rw [last]
      by_cases fits : Fits buffers message.totalBytes chunks
      · obtain ⟨draft, same, collected⟩ := ih.1 fits
        rw [same, Option.bind_some]
        exact collected.accept fits chunk
      · rw [ih.2 fits]
        exact ⟨fun whole => absurd (fits_concat_iff.mp whole).1 fits, fun _ => rfl⟩

theorem orderedChunks_eq {table : Table JsNumber Bytes} {body : Nat → Bytes}
    (count sequence : Nat)
    (all : ∀ place, sequence ≤ place → place < sequence + count →
      table.get (.ofNat place) = some (body place)) :
    orderedChunks table count sequence = some ((List.range' sequence count).map body) := by
  induction count generalizing sequence with
  | zero => rfl
  | succ count ih =>
      have later := ih (sequence + 1) fun place low high => all place (by omega) (by omega)
      rw [orderedChunks, all sequence (Nat.le_refl _) (by omega), Option.bind_some, later,
        List.range'_succ]
      rfl

theorem get_of_orderedChunks {table : Table JsNumber Bytes} {count sequence : Nat}
    {bodies : List Bytes} (ordered : orderedChunks table count sequence = some bodies) :
    ∀ place, sequence ≤ place → place < sequence + count →
      (table.get (.ofNat place)).isSome = true := by
  induction count generalizing sequence bodies with
  | zero =>
      intro place low high
      omega
  | succ count ih =>
      intro place low high
      obtain ⟨chunk, found, rest⟩ := Option.bind_eq_some_iff.mp ordered
      obtain ⟨later, same, _⟩ := Option.map_eq_some_iff.mp rest
      rcases Nat.eq_or_lt_of_le low with rfl | above
      · rw [found]
        rfl
      · exact ih same place above (by omega)

/-- The sequence numbers below a number. -/
def Numbered (chunks : List TunnelHttpRequestChunkEnvelope) (count : Nat) : Prop :=
  ∀ sequence, sequence ∈ chunks.map TunnelHttpRequestChunkEnvelope.sequence ↔
    ∃ place < count, sequence = .ofNat place

theorem nodup_places (count : Nat) : ((List.range count).map JsNumber.ofNat).Nodup :=
  List.nodup_range.map fun _ _ same => JsNumber.ofNat_inj.mp same

/-- The numbers of the chunks that came first, up to their order. -/
theorem Numbered.perm {count : Nat} (numbered : Numbered chunks count) :
    ((accepted chunks).map TunnelHttpRequestChunkEnvelope.sequence).Perm
      ((List.range count).map JsNumber.ofNat) := by
  have nodup : ((accepted chunks).map TunnelHttpRequestChunkEnvelope.sequence).Nodup :=
    List.nodup_map_firsts _ chunks
  refine (List.perm_ext_iff_of_nodup nodup (nodup_places count)).mpr fun sequence => ?_
  rw [accepted, List.mem_map_firsts, numbered sequence, List.mem_map]
  simp only [List.mem_range, eq_comm]

theorem numbered_iff {count : Nat} :
    Numbered chunks count ↔
      (accepted chunks).length = count ∧ ∀ place < count,
        JsNumber.ofNat place ∈ chunks.map TunnelHttpRequestChunkEnvelope.sequence := by
  have listed : ∀ sequence, sequence ∈ (accepted chunks).map _ ↔ _ := fun sequence =>
    List.mem_map_firsts TunnelHttpRequestChunkEnvelope.sequence
  constructor
  · intro numbered
    refine ⟨?_, fun place low => (numbered _).mpr ⟨place, low, rfl⟩⟩
    simpa using numbered.perm.length_eq
  · rintro ⟨length, all⟩
    have within : (List.range count).map JsNumber.ofNat ⊆
        (accepted chunks).map TunnelHttpRequestChunkEnvelope.sequence := by
      intro sequence inside
      obtain ⟨place, low, rfl⟩ := List.mem_map.mp inside
      exact (listed _).mpr (all place (List.mem_range.mp low))
    have same := (List.subperm_of_subset (nodup_places count) within).perm_of_length_le
      (by rw [List.length_map, List.length_map, List.length_range, length])
    intro sequence
    rw [← listed, ← same.mem_iff, List.mem_map]
    simp only [List.mem_range, eq_comm]

/-- The bytes of the chunks that came first are those of the bodies in their order. -/
theorem Numbered.acceptedBytes_eq {count : Nat} (numbered : Numbered chunks count) :
    acceptedBytes buffers chunks =
      ((List.range count).map (firstBody buffers chunks)).flatten.length := by
  have weighed : acceptedBytes buffers chunks =
      (((accepted chunks).map TunnelHttpRequestChunkEnvelope.sequence).map fun sequence =>
        (((chunks.find? fun chunk => chunk.sequence = sequence).map fun chunk =>
          buffers.fromBase64 chunk.bodyB64).getD []).length).sum := by
    rw [acceptedBytes, List.map_map]
    refine congrArg List.sum (List.map_congr_left fun chunk listed => ?_)
    have first := List.find?_of_mem_firsts TunnelHttpRequestChunkEnvelope.sequence listed
    rw [Function.comp_apply, first]
    rfl
  rw [weighed, (numbered.perm.map _).sum_nat, List.map_map, List.length_flatten, List.map_map]
  rfl

/-- The request that is put together. -/
def assembled (buffers : BufferBase64) (message : TunnelHttpRequestStartEnvelope)
    (chunks : List TunnelHttpRequestChunkEnvelope) (count : Nat) : TunnelHttpRequestEnvelope where
  id := message.id
  method := message.method
  path := message.path
  headers := message.headers
  bodyB64 := some (toBase64 ((List.range count).map (firstBody buffers chunks)).flatten)

/-- A draft makes the request when its numbers and its bytes are complete. -/
theorem Collected.assemble_eq_some_iff (collected : Collected buffers message chunks draft)
    {last : TunnelHttpRequestEndEnvelope} {request : TunnelHttpRequestEnvelope} :
    assemble draft last = some request ↔
      ∃ count : Nat, last.chunks = .ofNat count ∧ Numbered chunks count ∧
        message.totalBytes = .ofNat (acceptedBytes buffers chunks) ∧
        request = assembled buffers message chunks count := by
  have length : draft.chunks.entries.length = (accepted chunks).length := by
    rw [collected.entries, List.length_map]
  rw [assemble, collected.start, collected.received, length]
  have body : ∀ {place : Nat}, (draft.chunks.get (.ofNat place)).isSome = true →
      draft.chunks.get (.ofNat place) = some (firstBody buffers chunks place) := by
    intro place found
    obtain ⟨chunk, same⟩ := Option.isSome_iff_exists.mp found
    rw [firstBody, ← collected.get, same]
    rfl
  constructor
  · intro made
    split_ifs at made with other
    rw [not_or, not_not, not_not] at other
    obtain ⟨ordered, found, rfl⟩ := Option.map_eq_some_iff.mp made
    have all := get_of_orderedChunks found
    have bodies := orderedChunks_eq _ 0 fun place low high => body (all place low high)
    rw [bodies] at found
    cases found
    refine ⟨_, other.1.symm, numbered_iff.mpr ⟨rfl, fun place low => ?_⟩, other.2.symm, ?_⟩
    · exact (collected.seen_iff _).mp (all place (Nat.zero_le _) (by omega))
    · rw [assembled, List.range_eq_range']
  · rintro ⟨count, announced, numbered, complete, rfl⟩
    obtain ⟨rfl, all⟩ := numbered_iff.mp numbered
    have bodies := orderedChunks_eq (accepted chunks).length 0 fun place _ high =>
      body ((collected.seen_iff _).mpr (all place (by omega)))
    rw [if_neg (by rw [announced, complete]; simp), bodies, Option.map_some, assembled,
      List.range_eq_range']

/-- Chunks that carry pieces: every piece has a chunk, and every chunk has a piece. -/
structure Carries (chunks : List TunnelHttpRequestChunkEnvelope) (pieces : List Bytes) : Prop where
  body : ∀ chunk ∈ chunks, ∃ place piece, pieces[place]? = some piece ∧
    chunk.sequence = .ofNat place ∧ chunk.bodyB64 = toBase64 piece
  all : ∀ place < pieces.length,
    JsNumber.ofNat place ∈ chunks.map TunnelHttpRequestChunkEnvelope.sequence

variable {pieces : List Bytes}

theorem Carries.numbered (carries : Carries chunks pieces) : Numbered chunks pieces.length := by
  intro sequence
  constructor
  · intro listed
    obtain ⟨chunk, inside, rfl⟩ := List.mem_map.mp listed
    obtain ⟨place, piece, found, same, _⟩ := carries.body chunk inside
    exact ⟨place, (List.getElem?_eq_some_iff.mp found).1, same⟩
  · rintro ⟨place, low, rfl⟩
    exact carries.all place low

theorem Carries.bodies (carries : Carries chunks pieces) :
    (List.range pieces.length).map (firstBody buffers chunks) = pieces := by
  refine List.ext_getElem (by rw [List.length_map, List.length_range]) fun place _ low => ?_
  rw [List.getElem_map, List.getElem_range]
  have present : (chunks.find? fun chunk => chunk.sequence = .ofNat place).isSome = true := by
    obtain ⟨chunk, listed, same⟩ := List.mem_map.mp (carries.all place low)
    exact List.find?_isSome.mpr ⟨chunk, listed, decide_eq_true same⟩
  obtain ⟨chunk, found⟩ := Option.isSome_iff_exists.mp present
  obtain ⟨other, piece, piecewise, same, body⟩ := carries.body chunk (List.mem_of_find?_eq_some found)
  have own : chunk.sequence = .ofNat place := by
    simpa using List.find?_some found
  rw [own, JsNumber.ofNat_inj] at same
  subst same
  rw [firstBody, found, Option.map_some, Option.getD_some, body, buffers.fromBase64_toBase64]
  exact (List.getElem?_eq_some_iff.mp piecewise).2.symm

/-- Chunks that carry a small body fit. -/
theorem Carries.fits (carries : Carries chunks pieces)
    (small : pieces.flatten.length ≤ tunnelHttpPendingByteLimit) :
    Fits buffers (.ofNat pieces.flatten.length) chunks := by
  intro front within _
  have bytes : acceptedBytes buffers chunks = pieces.flatten.length := by
    rw [carries.numbered.acceptedBytes_eq, carries.bodies]
  have below := @acceptedBytes_le buffers _ _ within
  rw [bytes] at below
  refine ⟨?_, below.trans small⟩
  rw [Bool.eq_false_iff]
  exact fun exceeded => absurd below (Nat.not_le.mpr (JsNumber.isBelow_ofNat.mp exceeded))

end Collect

section Whole

variable (buffers : BufferBase64) (assembler : ChunkedHttpRequestAssembler)
  (message : TunnelHttpRequestStartEnvelope)

/-- **Assembling.** Between the start of a request and its end come its chunks, in any order, and
messages about other requests. The end returns a request exactly when the bytes of the chunks that
came first always fit, their sequence numbers are those below the announced number and their bytes
are as many as announced. The body is theirs in the order of the sequence numbers, so it is the
original one if the chunks carry its pieces. Messages leave the drafts of other requests. -/
theorem assembled_iff (calls : List Call)
    (own : ∀ call ∈ calls, call.id = message.id → call.IsChunk)
    (last : TunnelHttpRequestEndEnvelope) (same : last.id = message.id) :
    (∀ request,
      (((assembler.start message).handleAll buffers calls).endRequest last).2 = some request ↔
        Fits buffers message.totalBytes (chunksOf message.id calls) ∧
          ∃ count : Nat, last.chunks = .ofNat count ∧
            Numbered (chunksOf message.id calls) count ∧
            message.totalBytes = .ofNat ((List.range count).map
              (firstBody buffers (chunksOf message.id calls))).flatten.length ∧
            request = assembled buffers message (chunksOf message.id calls) count) ∧
      (∀ pieces : List Bytes, Carries (chunksOf message.id calls) pieces →
        message.totalBytes = .ofNat pieces.flatten.length →
        pieces.flatten.length ≤ tunnelHttpPendingByteLimit → last.chunks = .ofNat pieces.length →
          (((assembler.start message).handleAll buffers calls).endRequest last).2 =
            some ⟨message.id, message.method, message.path, message.headers,
              some (toBase64 pieces.flatten)⟩) ∧
      ∀ (others : ChunkedHttpRequestAssembler) (call : Call) (id : JsString), id ≠ call.id →
        (others.handle buffers call).drafts.get id = others.drafts.get id := by
  have started : (assembler.start message).drafts.get message.id = some ⟨message, .empty, 0⟩ :=
    (Table.get_set _ _ _ _).trans (if_pos rfl)
  have ended : (((assembler.start message).handleAll buffers calls).endRequest last).2 =
      (acceptAll buffers (some ⟨message, .empty, 0⟩) (chunksOf message.id calls)).bind
        fun draft => assemble draft last := by
    rw [endRequest, same, get_handleAll _ own, started]
  obtain ⟨kept, dropped⟩ := acceptAll_spec buffers message (chunksOf message.id calls)
  have whole : ∀ request,
      (((assembler.start message).handleAll buffers calls).endRequest last).2 = some request ↔
        Fits buffers message.totalBytes (chunksOf message.id calls) ∧
          ∃ count : Nat, last.chunks = .ofNat count ∧
            Numbered (chunksOf message.id calls) count ∧
            message.totalBytes = .ofNat ((List.range count).map
              (firstBody buffers (chunksOf message.id calls))).flatten.length ∧
            request = assembled buffers message (chunksOf message.id calls) count := by
    intro request
    rw [ended]
    by_cases fits : Fits buffers message.totalBytes (chunksOf message.id calls)
    · obtain ⟨draft, found, collected⟩ := kept fits
      rw [found, Option.bind_some, collected.assemble_eq_some_iff, and_iff_right fits]
      refine exists_congr fun count => and_congr_right fun _ => and_congr_right fun numbered => ?_
      rw [numbered.acceptedBytes_eq]
    · rw [dropped fits]
      exact iff_of_false nofun fun all => fits all.1
  refine ⟨whole, ?_, fun others call id other => get_handle_of_ne others other⟩
  intro pieces carries total small announced
  refine (whole _).mpr ⟨?_, pieces.length, announced, carries.numbered, ?_, ?_⟩
  · rw [total]
    exact carries.fits small
  · rw [carries.bodies, total]
  · rw [assembled, carries.bodies]

/-- A request of two pieces. -/
def twoPieces : TunnelHttpRequestStartEnvelope where
  id := units "1"
  method := units "PUT"
  path := units "/api/notes"
  headers := []
  totalBytes := .ofNat 3

/-- Its chunks, the second one first and the first one twice, among those of another request. -/
def twoPiecesCalls : List Call :=
  [.chunk ⟨units "1", .ofNat 1, toBase64 [3]⟩,
    .start ⟨units "2", units "PUT", units "/", [], .infinity⟩,
    .chunk ⟨units "1", .ofNat 0, toBase64 [1, 2]⟩, .cancel (units "2"),
    .chunk ⟨units "1", .ofNat 0, toBase64 [1, 2]⟩]

theorem assembled_iff_twoPieces :
    (∀ call ∈ twoPiecesCalls, call.id = twoPieces.id → call.IsChunk) ∧
      ((((⟨.empty⟩ : ChunkedHttpRequestAssembler).start twoPieces).handleAll platformBuffers
        twoPiecesCalls).endRequest ⟨twoPieces.id, .ofNat 2⟩).2 =
          some ⟨units "1", units "PUT", units "/api/notes", [], some (toBase64 [1, 2, 3])⟩ := by
  have own : ∀ call ∈ twoPiecesCalls, call.id = twoPieces.id → call.IsChunk := by decide
  have carries : Carries (chunksOf twoPieces.id twoPiecesCalls) [[1, 2], [3]] := by
    refine ⟨?_, ?_⟩
    · intro chunk listed
      have all : chunksOf twoPieces.id twoPiecesCalls =
          [⟨units "1", .ofNat 1, toBase64 [3]⟩, ⟨units "1", .ofNat 0, toBase64 [1, 2]⟩,
            ⟨units "1", .ofNat 0, toBase64 [1, 2]⟩] := rfl
      rw [all, List.mem_cons, List.mem_cons, List.mem_singleton] at listed
      rcases listed with rfl | rfl | rfl
      · exact ⟨1, [3], rfl, rfl, rfl⟩
      · exact ⟨0, [1, 2], rfl, rfl, rfl⟩
      · exact ⟨0, [1, 2], rfl, rfl, rfl⟩
    · decide +kernel
  exact ⟨own, (assembled_iff platformBuffers ⟨.empty⟩ twoPieces twoPiecesCalls own
    ⟨twoPieces.id, .ofNat 2⟩ rfl).2.1 [[1, 2], [3]] carries rfl (by decide) rfl⟩

end Whole

end ChunkedHttpRequestAssembler

end Kb1Daemon
