import Mathlib.Data.List.Basic
import Mathlib.Data.List.ReduceOption

/-! # Messages in pieces

A message is cut into pieces of bounded size, the last of which is marked final, and a
receiver joins the pieces up to a final one. A run of the receiver yields one message
for every final piece (`Joiner.length_run`), the pieces of messages that are not too
large are joined to these messages (`Joiner.run_pieces`), and so is any front part of
their pieces as far as it goes (`Joiner.run_front`). A receiver that has the front of the
message whose rest is queued can take any number of the queued pieces (`Cutting.take`).
-/

universe u

/-- A part of a message. -/
structure Piece (Item : Type u) where
  content : List Item
  final : Bool
  deriving DecidableEq, Repr

namespace Piece

variable {Item : Type u}

/-- Cut the rest of a message, whose length the fuel exceeds. -/
def cutLoop (size : Nat) : Nat → List Item → List (Piece Item)
  | 0, _ => []
  | fuel + 1, rest =>
      if rest.length ≤ size then [⟨rest, true⟩]
      else ⟨rest.take size, false⟩ :: cutLoop size fuel (rest.drop size)

/-- The pieces of a message; an empty message has one. -/
def cut (size : Nat) (message : List Item) : List (Piece Item) :=
  cutLoop size (message.length + 1) message

end Piece

/-- What a receiver has of a message it has not got the final piece of. -/
structure Joiner (Item : Type u) where
  limit : Nat
  buffer : List Item
  deriving DecidableEq, Repr

namespace Joiner

variable {Item : Type u}

/-- Take a piece; `none` when the message gets too large, else the message the piece
completes. -/
def accept (joiner : Joiner Item) (piece : Piece Item) :
    Option (Joiner Item × Option (List Item)) :=
  if joiner.limit < joiner.buffer.length + piece.content.length then none
  else if piece.final then
    some ({ joiner with buffer := [] }, some (joiner.buffer ++ piece.content))
  else some ({ joiner with buffer := joiner.buffer ++ piece.content }, none)

/-- Take pieces one after another; the result has the completed messages. -/
def run (joiner : Joiner Item) : List (Piece Item) → Option (Joiner Item × List (List Item))
  | [] => some (joiner, [])
  | piece :: rest =>
      (joiner.accept piece).bind fun accepted =>
        (accepted.1.run rest).map fun joined => (joined.1, accepted.2.toList ++ joined.2)

theorem run_append (joiner : Joiner Item) (front rest : List (Piece Item)) :
    joiner.run (front ++ rest) =
      (joiner.run front).bind fun joined =>
        (joined.1.run rest).map fun more => (more.1, joined.2 ++ more.2) := by
  induction front generalizing joiner with
  | nil => simp [run]
  | cons piece front ih =>
      rw [List.cons_append, run, run]
      cases joiner.accept piece with
      | none => rfl
      | some accepted =>
          simp only [Option.bind_some, ih]
          cases accepted.1.run front with
          | none => rfl
          | some joined =>
              simp only [Option.map_some, Option.bind_some, Option.map_map]
              congr 1
              funext more
              simp

/-- A run completes a message for every final piece. -/
theorem length_run {joiner next : Joiner Item} {pieces : List (Piece Item)}
    {messages : List (List Item)} (ran : joiner.run pieces = some (next, messages)) :
    messages.length = pieces.countP Piece.final := by
  induction pieces generalizing joiner messages with
  | nil =>
      cases ran
      rfl
  | cons piece rest ih =>
      obtain ⟨accepted, taken, more⟩ := Option.bind_eq_some_iff.mp ran
      obtain ⟨joined, rests, same⟩ := Option.map_eq_some_iff.mp more
      cases same
      rw [List.length_append, ih rests, List.countP_cons]
      unfold accept at taken
      split at taken
      · cases taken
      · split at taken
        · rename_i final
          cases taken
          rw [if_pos final]
          exact Nat.add_comm _ _
        · rename_i unfinished
          cases taken
          rw [if_neg unfinished]
          exact Nat.add_comm _ _

/-- The pieces of the rest of a message complete it. -/
theorem run_cutLoop {size : Nat} (positive : 0 < size) {fuel : Nat} {joiner : Joiner Item}
    {rest : List Item} (fueled : rest.length < fuel)
    (fits : joiner.buffer.length + rest.length ≤ joiner.limit) :
    joiner.run (Piece.cutLoop size fuel rest) =
      some ({ joiner with buffer := [] }, [joiner.buffer ++ rest]) := by
  induction fuel generalizing joiner rest with
  | zero => exact absurd fueled (Nat.not_lt_zero _)
  | succ fuel ih =>
      unfold Piece.cutLoop
      by_cases last : rest.length ≤ size
      · rw [if_pos last, run, accept, if_neg (Nat.not_lt.mpr fits)]
        simp [run]
      · rw [if_neg last, run, accept]
        have taken : (rest.take size).length = size := List.length_take_of_le (by omega)
        have dropped : (rest.drop size).length = rest.length - size := List.length_drop
        rw [if_neg (by dsimp only; omega)]
        have joined := @ih { joiner with buffer := joiner.buffer ++ rest.take size }
          (rest.drop size) (by omega) (by
            dsimp only
            rw [List.length_append]
            omega)
        simp only [Bool.false_eq_true, ↓reduceIte, Option.bind_some, joined, Option.map_some,
          Option.toList_none, List.nil_append, List.append_assoc, List.take_append_drop]

/-- **Joining the pieces.** The pieces of messages within the limit are joined to them. -/
theorem run_pieces {size : Nat} (positive : 0 < size) {limit : Nat}
    {messages : List (List Item)} (fits : ∀ message ∈ messages, message.length ≤ limit) :
    (Joiner.mk limit []).run (messages.flatMap (Piece.cut size)) =
      some (⟨limit, []⟩, messages) := by
  induction messages with
  | nil => rfl
  | cons message rest ih =>
      have first : (Joiner.mk limit []).run (Piece.cut size message) =
          some (⟨limit, []⟩, [message]) :=
        run_cutLoop positive (Nat.lt_succ_self _) (by
          simpa using fits message List.mem_cons_self)
      rw [List.flatMap_cons, run_append, first, Option.bind_some,
        ih fun other member => fits other (List.mem_cons_of_mem _ member)]
      rfl

/-- **Joining a front part.** A front part of the pieces of messages within the limit is
joined to as many of them as it has final pieces. -/
theorem run_front {size : Nat} (positive : 0 < size) {limit : Nat}
    {messages : List (List Item)} (fits : ∀ message ∈ messages, message.length ≤ limit)
    {front rest : List (Piece Item)} (cut : front ++ rest = messages.flatMap (Piece.cut size)) :
    ∃ next, (Joiner.mk limit []).run front =
      some (next, messages.take (front.countP Piece.final)) := by
  have whole := run_pieces positive fits
  rw [← cut, run_append] at whole
  obtain ⟨joined, ran, more⟩ := Option.bind_eq_some_iff.mp whole
  obtain ⟨others, _, same⟩ := Option.map_eq_some_iff.mp more
  have all : joined.2 ++ others.2 = messages := congrArg Prod.snd same
  refine ⟨joined.1, ?_⟩
  rw [ran, ← length_run ran, ← all, List.take_left]

/-- What the pieces complete, one after another, up to the first that makes a message too large. -/
def outputs (joiner : Joiner Item) : List (Piece Item) → List (Option (List Item))
  | [] => []
  | piece :: rest =>
      match joiner.accept piece with
      | none => []
      | some (next, message) => message :: next.outputs rest

/-- The outputs of a run are the messages it completes. -/
theorem outputs_run {joiner next : Joiner Item} {pieces : List (Piece Item)}
    {messages : List (List Item)} (ran : joiner.run pieces = some (next, messages)) :
    (joiner.outputs pieces).reduceOption = messages := by
  induction pieces generalizing joiner messages with
  | nil =>
      cases ran
      rfl
  | cons piece rest ih =>
      obtain ⟨accepted, taken, more⟩ := Option.bind_eq_some_iff.mp ran
      obtain ⟨joined, rests, same⟩ := Option.map_eq_some_iff.mp more
      cases same
      rw [outputs, taken]
      dsimp only
      cases message : accepted.2 with
      | none => rw [List.reduceOption_cons_of_none, ih rests, Option.toList_none, List.nil_append]
      | some message => rw [List.reduceOption_cons_of_some, ih rests]; rfl

/-- A run has an output for each piece. -/
theorem length_outputs_run {joiner next : Joiner Item} {pieces : List (Piece Item)}
    {messages : List (List Item)} (ran : joiner.run pieces = some (next, messages)) :
    (joiner.outputs pieces).length = pieces.length := by
  induction pieces generalizing joiner messages with
  | nil => rfl
  | cons piece rest ih =>
      obtain ⟨accepted, taken, more⟩ := Option.bind_eq_some_iff.mp ran
      obtain ⟨joined, rests, same⟩ := Option.map_eq_some_iff.mp more
      cases same
      rw [outputs, taken]
      exact congrArg (· + 1) (ih rests)

/-- What comes after a run. -/
theorem outputs_append {joiner next : Joiner Item} {front : List (Piece Item)}
    {messages : List (List Item)} (ran : joiner.run front = some (next, messages))
    (rest : List (Piece Item)) :
    joiner.outputs (front ++ rest) = joiner.outputs front ++ next.outputs rest := by
  induction front generalizing joiner messages with
  | nil =>
      cases ran
      rfl
  | cons piece front ih =>
      obtain ⟨accepted, taken, more⟩ := Option.bind_eq_some_iff.mp ran
      obtain ⟨joined, rests, same⟩ := Option.map_eq_some_iff.mp more
      cases same
      rw [List.cons_append, outputs, outputs, taken]
      exact congrArg (accepted.2 :: ·) (ih rests)

end Joiner

/-- What is queued: nothing, or the pieces of the rest of a message, whose front is gone,
and of the messages after it. -/
inductive Cutting {Item : Type u} (size : Nat) :
    List Item → List (Piece Item) → List (List Item) → Prop where
  | done : Cutting size [] [] []
  | inside {fuel : Nat} (front rest : List Item) (later : List (List Item)) :
      rest.length < fuel →
      Cutting size front (Piece.cutLoop size fuel rest ++ later.flatMap (Piece.cut size))
        ((front ++ rest) :: later)

namespace Cutting

variable {Item : Type u} {size : Nat}

/-- Nothing is left of the first messages. -/
theorem whole (messages : List (List Item)) :
    Cutting size [] (messages.flatMap (Piece.cut size)) messages := by
  cases messages with
  | nil => exact .done
  | cons message later => exact .inside [] message later (Nat.lt_succ_self _)

/-- Another message is queued. -/
theorem enqueue {front : List Item} {queued : List (Piece Item)} {messages : List (List Item)}
    (cutting : Cutting size front queued messages) (message : List Item) :
    Cutting size front (queued ++ Piece.cut size message) (messages ++ [message]) := by
  cases cutting with
  | done =>
      have single := @whole Item size [message]
      rw [List.flatMap_singleton] at single
      exact single
  | inside front rest later fueled =>
      have more := @inside Item size _ front rest (later ++ [message]) fueled
      rw [List.flatMap_append, List.flatMap_singleton, ← List.append_assoc] at more
      exact more

/-- One piece leaves the queue: it completes the first message, or adds to its front. -/
theorem step (positive : 0 < size) {front : List Item} {piece : Piece Item} {queued : List (Piece Item)}
    {messages : List (List Item)} (cutting : Cutting size front (piece :: queued) messages) :
    (piece.final = true ∧ ∃ later, messages = (front ++ piece.content) :: later ∧
      Cutting size [] queued later) ∨
    (piece.final = false ∧ (∃ rest later, messages = (front ++ piece.content ++ rest) :: later) ∧
      Cutting size (front ++ piece.content) queued messages) := by
  generalize same : piece :: queued = pieces at cutting
  cases cutting with
  | done => cases same
  | @inside fuel front rest later fueled =>
      obtain ⟨fuel, rfl⟩ := Nat.exists_eq_succ_of_ne_zero (Nat.ne_zero_of_lt fueled)
      unfold Piece.cutLoop at same
      by_cases last : rest.length ≤ size
      · rw [if_pos last] at same
        obtain ⟨rfl, rfl⟩ := List.cons.inj same
        exact .inl ⟨rfl, later, rfl, whole later⟩
      · rw [if_neg last] at same
        obtain ⟨rfl, rfl⟩ := List.cons.inj same
        refine .inr ⟨rfl, ⟨rest.drop size, later, ?_⟩, ?_⟩
        · dsimp only
          rw [List.append_assoc, List.take_append_drop]
        · have shorter := @inside Item size fuel (front ++ rest.take size) (rest.drop size) later
            (by rw [List.length_drop]; omega)
          rw [List.append_assoc, List.take_append_drop] at shorter
          exact shorter

/-- **Taking pieces.** When pieces leave the queue, the messages they complete are gone
from it; a receiver that has the front of the first message gets these messages and is
left with the front of the next one. -/
theorem take (positive : 0 < size) {front : List Item} {taken queued : List (Piece Item)}
    {messages : List (List Item)} (cutting : Cutting size front (taken ++ queued) messages) :
    ∃ next past later, messages = past ++ later ∧ Cutting size next queued later ∧
      (taken = [] → next = front) ∧
      (∀ last, taken.getLast? = some last → last.final = true → next = []) ∧
      ∀ limit, (∀ message ∈ messages, message.length ≤ limit) →
        (Joiner.mk limit front).run taken = some (⟨limit, next⟩, past) := by
  induction taken generalizing front messages with
  | nil => exact ⟨front, [], messages, rfl, cutting, fun _ => rfl, nofun, fun _ _ => rfl⟩
  | cons piece taken ih =>
      have bounded : ∀ {rest : List Item} {later : List (List Item)} {limit : Nat},
          messages = (front ++ piece.content ++ rest) :: later →
          (∀ message ∈ messages, message.length ≤ limit) →
          ¬ limit < front.length + piece.content.length := by
        rintro rest later limit rfl fits
        have small := fits _ List.mem_cons_self
        rw [List.length_append, List.length_append] at small
        omega
      rcases cutting.step positive with ⟨final, later, split, more⟩ | ⟨unfinished, split, more⟩
      · obtain ⟨next, past, rest, same, left, still, ends, joins⟩ := ih more
        refine ⟨next, (front ++ piece.content) :: past, rest, ?_, left, nofun, ?_, ?_⟩
        · rw [split, same]
          rfl
        · intro last found ended
          cases taken with
          | nil => exact still rfl
          | cons other taken => exact ends last found ended
        · intro limit fits
          have room := @bounded [] later limit (by rw [List.append_nil]; exact split) fits
          rw [Joiner.run, Joiner.accept, if_neg room, if_pos final, Option.bind_some]
          dsimp only
          rw [joins limit fun message member => fits message (split ▸ List.mem_cons_of_mem _ member)]
          rfl
      · obtain ⟨rest, later, split⟩ := split
        obtain ⟨next, past, others, same, left, still, ends, joins⟩ := ih more
        refine ⟨next, past, others, same, left, nofun, ?_, ?_⟩
        · intro last found ended
          cases taken with
          | nil =>
              obtain rfl := Option.some.inj found
              exact absurd (unfinished.symm.trans ended) (by decide)
          | cons other taken => exact ends last found ended
        · intro limit fits
          have room := bounded split fits
          have open_ : ¬ piece.final = true := Bool.eq_false_iff.mp unfinished
          rw [Joiner.run, Joiner.accept, if_neg room, if_neg open_, Option.bind_some]
          dsimp only
          rw [joins limit fits]
          rfl

end Cutting
