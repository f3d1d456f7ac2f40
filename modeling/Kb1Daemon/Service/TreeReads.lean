import Kb1Daemon.Foundation.Machine
import Kb1Daemon.Foundation.Table
import Kb1Daemon.Text.Splice
import Mathlib.Data.Rat.Defs

/-! # Coalesced readings of the tree

Listings of one folder share a reading of the tree that is under way, unless it was
invalidated. Every mutation invalidates the readings as it begins; most do so again as
they return, but an edit of a note relies on the change event that follows when its content
is persisted. As long as an edit that creates its note goes on to persist it, a listing
never shares a reading that began before the effects of a mutation that has returned
(`read_your_writes`).
-/

namespace Kb1Daemon

/-- What a listing is asked for: its key in the map of readings. A depth that is no finite
number is written like a missing one. -/
structure TreeReadKey where
  under : JsString
  depth : Option ℚ
  deriving DecidableEq

/-- The edit that a session is asked for. -/
inductive NoteEdit where
  | splice
  | append (content : JsString)
  | prepend (content : JsString)
  deriving DecidableEq

/-- The content after an edit, given what a splice makes of it. -/
def NoteEdit.apply (current spliced : JsString) : NoteEdit → JsString
  | .splice => spliced
  | .append content => appendContent current content
  | .prepend content => prependContent current content

inductive ServiceMutation where
  | setFolderMetadata
  | writeRawFile
  | createNote
  | editNote
  | appendNote (content : JsString)
  | prependNote (content : JsString)
  | deleteNote
  | moveNote
  | createFolder
  | deleteFolder
  | moveFolder
  deriving DecidableEq

/-- What a mutation awaits next. -/
inductive MutationStage where
  /-- The checks of its input, and what it reads from the disk. -/
  | check
  /-- Work on the tree, which may have any effects, or fail. -/
  | work
  /-- The history, which has no effects that a listing shows. -/
  | history
  /-- The session of a note, which is opened first. -/
  | openSession (edit : NoteEdit)
  | applyEdit (edit : NoteEdit) (created : Bool)
  | materialize (created : Bool)
  | contentPersisted
  /-- The audit of an edit, of which no change event is made. -/
  | audit
  | finishTreeMutation
  deriving DecidableEq

/-- The stages of a mutation, after `invalidateTreeReads`, with which it begins. -/
def ServiceMutation.stages : ServiceMutation → List MutationStage
  | .setFolderMetadata => [.work, .finishTreeMutation]
  | .writeRawFile => [.work, .finishTreeMutation]
  | .createNote => [.check, .work, .history, .finishTreeMutation]
  | .editNote => [.check, .openSession .splice, .audit, .history]
  | .appendNote content => [.check, .openSession (.append content), .audit, .history]
  | .prependNote content => [.check, .openSession (.prepend content), .audit, .history]
  | .deleteNote => [.work, .finishTreeMutation]
  | .moveNote => [.history, .work, .history, .finishTreeMutation]
  | .createFolder => [.work, .finishTreeMutation]
  | .deleteFolder => [.work, .finishTreeMutation]
  | .moveFolder => [.history, .work, .history, .finishTreeMutation]

/-- A call of a mutation, with the number of its last effect on the tree. -/
structure TreeMutation where
  stages : List MutationStage
  lastEffect : Nat
  deriving DecidableEq

/-- A reading of the tree, with the number of effects before it began. -/
structure TreeRead where
  key : TreeReadKey
  began : Nat
  deriving DecidableEq

/-- A listing: the number of effects before the reading that answers it began, and the
number of the last effect of a mutation that had returned when it was called. -/
structure TreeAnswer where
  began : Nat
  settled : Nat
  deriving DecidableEq

/-- The readings of the tree and the mutations under way. `effects` counts the effects of
mutations on the tree, and `invalidated` is their number at the last invalidation. -/
structure TreeReads where
  treeReadGeneration : Nat
  treeReadInFlight : Table TreeReadKey (Nat × Nat)
  reads : List TreeRead
  calls : List TreeMutation
  effects : Nat
  invalidated : Nat
  settled : Nat
  answers : List TreeAnswer
  deriving DecidableEq

/-- How the persisting of an edit ends. -/
inductive PersistEnd where
  | written
  /-- The note was changed from outside, which is merged and reported. -/
  | merged
  /-- From outside, the note was deleted, or changed to the content that is persisted. -/
  | unreported
  | failed
  deriving DecidableEq

inductive TreeReadsLabel where
  | listFiles (key : TreeReadKey)
  /-- A reading of the tree ends. -/
  | settle (read : Nat)
  /-- A change event is emitted. -/
  | emitChange
  | call (mutation : ServiceMutation)
  /-- The work of a call has an effect on the tree. -/
  | effect (index : Nat)
  | pass (index : Nat)
  /-- A call fails; most invalidate the readings as they return the failure. -/
  | fail (index : Nat) (finishes : Bool)
  /-- The session of an edit is open; its note may have been created. -/
  | opened (index : Nat) (created : Bool)
  /-- An edit is applied. An earlier failure to persist is made up for. -/
  | edited (index : Nat) (current spliced : JsString) (retried : Bool)
  | materialized (index : Nat) (outcome : PersistEnd)
  deriving DecidableEq

namespace TreeReads

def new : TreeReads := ⟨0, .empty, [], [], 0, 0, 0, []⟩

def invalidateTreeReads (reads : TreeReads) : TreeReads :=
  { reads with
    treeReadGeneration := reads.treeReadGeneration + 1
    treeReadInFlight := .empty
    invalidated := reads.effects }

/-- Start a reading of the tree. -/
def startRead (reads : TreeReads) (key : TreeReadKey) : TreeReads :=
  { reads with
    reads := reads.reads ++ [⟨key, reads.effects⟩]
    treeReadInFlight :=
      reads.treeReadInFlight.set key (reads.treeReadGeneration, reads.reads.length) }

/-- The reading that answers a listing. -/
def coalescedTreeRead (reads : TreeReads) (key : TreeReadKey) : TreeReads × Nat :=
  match reads.treeReadInFlight.get key with
  | some (generation, read) =>
      if generation = reads.treeReadGeneration then (reads, read)
      else (reads.startRead key, reads.reads.length)
  | none => (reads.startRead key, reads.reads.length)

/-- Answer a listing. -/
def listFiles (reads : TreeReads) (key : TreeReadKey) : TreeReads :=
  let read := reads.coalescedTreeRead key
  { read.1 with
    answers := reads.answers ++
      (read.1.reads[read.2]?.map fun answer => ⟨answer.began, reads.settled⟩).toList }

/-- A reading ends and leaves the map, if it is still there. -/
def settleRead (reads : TreeReads) (read : Nat) : TreeReads :=
  match reads.reads[read]? with
  | none => reads
  | some answer =>
      match reads.treeReadInFlight.get answer.key with
      | some (_, other) =>
          if other = read then
            { reads with treeReadInFlight := reads.treeReadInFlight.delete answer.key }
          else reads
      | none => reads

/-- A call goes on with other stages; with none left, it returns. -/
def goOn (reads : TreeReads) (index : Nat) (call : TreeMutation) : TreeReads :=
  if call.stages.isEmpty then
    { reads with
      calls := reads.calls.eraseIdx index
      settled := max reads.settled call.lastEffect }
  else { reads with calls := reads.calls.set index call }

/-- A call has an effect on the tree. -/
def addEffect (reads : TreeReads) (index : Nat) (stages : List MutationStage) : TreeReads :=
  { reads with
    effects := reads.effects + 1
    calls := reads.calls.set index ⟨stages, reads.effects + 1⟩ }

end TreeReads

/-- The readings of the tree as a machine. -/
def treeReadsMachine : Machine TreeReads TreeReadsLabel where
  step reads
    | .listFiles key => some (reads.listFiles key)
    | .settle read => some (reads.settleRead read)
    | .emitChange => some reads.invalidateTreeReads
    | .call mutation =>
        some { reads.invalidateTreeReads with calls := reads.calls ++ [⟨mutation.stages, 0⟩] }
    | .effect index =>
        match reads.calls[index]? with
        | some ⟨.work :: rest, _⟩ => some (reads.addEffect index (.work :: rest))
        | _ => none
    | .pass index =>
        match reads.calls[index]? with
        | some ⟨.check :: rest, last⟩ => some (reads.goOn index ⟨rest, last⟩)
        | some ⟨.work :: rest, last⟩ => some (reads.goOn index ⟨rest, last⟩)
        | some ⟨.history :: rest, last⟩ => some (reads.goOn index ⟨rest, last⟩)
        | some ⟨.audit :: rest, last⟩ => some (reads.goOn index ⟨rest, last⟩)
        | some ⟨.contentPersisted :: rest, last⟩ =>
            some (reads.invalidateTreeReads.goOn index ⟨rest, last⟩)
        | some ⟨.finishTreeMutation :: rest, last⟩ =>
            some (reads.invalidateTreeReads.goOn index ⟨rest, last⟩)
        | _ => none
    | .fail index finishes =>
        match reads.calls[index]? with
        | some _ =>
            let left := { reads with calls := reads.calls.eraseIdx index }
            some (if finishes then left.invalidateTreeReads else left)
        | none => none
    | .opened index created =>
        match reads.calls[index]? with
        | some ⟨.openSession edit :: rest, last⟩ =>
            some (if created then reads.addEffect index (.applyEdit edit true :: rest)
              else reads.goOn index ⟨.applyEdit edit false :: rest, last⟩)
        | _ => none
    | .edited index current spliced retried =>
        match reads.calls[index]? with
        | some ⟨.applyEdit edit created :: rest, last⟩ =>
            some (if edit.apply current spliced ≠ current ∨ retried = true then
                reads.goOn index ⟨.materialize created :: rest, last⟩
              else reads.goOn index ⟨rest, last⟩)
        | _ => none
    | .materialized index outcome =>
        match reads.calls[index]? with
        | some ⟨.materialize _ :: rest, last⟩ =>
            match outcome with
            | .written => some (reads.addEffect index (.contentPersisted :: rest))
            | .merged => some (reads.invalidateTreeReads.goOn index ⟨rest, last⟩)
            | .unreported => some (reads.goOn index ⟨rest, last⟩)
            | .failed =>
                some { reads.invalidateTreeReads with calls := reads.calls.eraseIdx index }
        | _ => none

namespace TreeReads

/-- No listing is answered by a reading that began before the last effect of a mutation
that had returned. -/
def ReadsOwnWrites (reads : TreeReads) : Prop :=
  ∀ answer ∈ reads.answers, answer.settled ≤ answer.began

/-- An edit that created its note goes on to change and persist it: the edit is not without
effect on the content, and nobody deletes the note or writes the same content meanwhile. -/
def PersistsCreated (reads : TreeReads) : TreeReadsLabel → Prop
  | .edited index current spliced retried =>
      match reads.calls[index]? with
      | some ⟨.applyEdit edit true :: _, _⟩ => edit.apply current spliced ≠ current ∨ retried = true
      | _ => True
  | .materialized index outcome =>
      match reads.calls[index]? with
      | some ⟨.materialize true :: _, _⟩ => outcome ≠ .unreported
      | _ => True
  | _ => True

instance (reads : TreeReads) (label : TreeReadsLabel) :
    Decidable (reads.PersistsCreated label) := by
  unfold PersistsCreated
  cases label with
  | edited index current spliced retried =>
      dsimp only
      split <;> infer_instance
  | materialized index outcome =>
      dsimp only
      split <;> infer_instance
  | _ => exact .isTrue trivial

end TreeReads

namespace TreeMutation

/-- What is left of a call invalidates the readings before it returns. -/
def Invalidates (call : TreeMutation) : Prop :=
  (∃ edit, call.stages.head? = some (.applyEdit edit true)) ∨
    call.stages.head? = some (.materialize true) ∨
    call.stages.head? = some .contentPersisted ∨ .finishTreeMutation ∈ call.stages

/-- A call that works on the tree ends by invalidating the readings. -/
def Finishes (call : TreeMutation) : Prop :=
  .work ∈ call.stages → call.stages.getLast? = some .finishTreeMutation

theorem finishes_call (mutation : ServiceMutation) :
    Finishes ⟨mutation.stages, 0⟩ := by
  intro works
  cases mutation with
  | editNote => simp [ServiceMutation.stages] at works
  | appendNote content => simp [ServiceMutation.stages] at works
  | prependNote content => simp [ServiceMutation.stages] at works
  | _ => rfl

theorem Finishes.rest {stage : MutationStage} {rest : List MutationStage} {last : Nat}
    (finishes : Finishes ⟨stage :: rest, last⟩) (other : Nat) : Finishes ⟨rest, other⟩ := by
  intro works
  have ends := finishes (List.mem_cons_of_mem _ works)
  cases rest with
  | nil => cases works
  | cons first more =>
      dsimp only at ends
      rw [List.getLast?_cons_cons] at ends
      exact ends

/-- Another stage that does no work on the tree may take the place of the first one. -/
theorem Finishes.replace {stage : MutationStage} {rest : List MutationStage} {last : Nat}
    (finishes : Finishes ⟨stage :: rest, last⟩) (other : MutationStage) (idle : other ≠ .work)
    (effect : Nat) :
    Finishes ⟨other :: rest, effect⟩ := by
  intro works
  rcases List.mem_cons.mp works with same | later
  · exact absurd same.symm idle
  · have ends := finishes (List.mem_cons_of_mem _ later)
    cases rest with
    | nil => cases later
    | cons first more =>
        dsimp only at ends ⊢
        rw [List.getLast?_cons_cons] at ends ⊢
        exact ends

end TreeMutation

namespace TreeReads

/-- The readings in the map began after the last invalidation, and so do the effects of
calls that have returned precede it. -/
structure Fresh (reads : TreeReads) : Prop where
  inFlight : ∀ key generation read,
    reads.treeReadInFlight.Holds key (generation, read) →
      ∃ answer, reads.reads[read]? = some answer ∧ reads.invalidated ≤ answer.began
  bounded : reads.invalidated ≤ reads.effects
  settled : reads.settled ≤ reads.invalidated
  finishes : ∀ call ∈ reads.calls, call.Finishes
  effected : ∀ call ∈ reads.calls, call.lastEffect ≤ reads.effects
  invalidates : ∀ call ∈ reads.calls, call.lastEffect ≤ reads.invalidated ∨ call.Invalidates
  answers : reads.ReadsOwnWrites

variable {reads : TreeReads}

theorem fresh_invalidate (fresh : reads.Fresh) : reads.invalidateTreeReads.Fresh where
  inFlight := nofun
  bounded := Nat.le_refl _
  settled := fresh.settled.trans fresh.bounded
  finishes := fresh.finishes
  effected := fresh.effected
  invalidates := fun call member => .inl (fresh.effected call member)
  answers := fresh.answers

/-- A call that goes on keeps the readings fresh, if what is left of it invalidates them. -/
theorem fresh_goOn (fresh : reads.Fresh) (index : Nat) {call : TreeMutation}
    (finishes : call.Finishes) (effected : call.lastEffect ≤ reads.effects)
    (invalidates : call.lastEffect ≤ reads.invalidated ∨ call.stages ≠ [] ∧ call.Invalidates) :
    (reads.goOn index call).Fresh := by
  unfold goOn
  by_cases returns : call.stages.isEmpty = true
  · rw [if_pos returns]
    have last : call.lastEffect ≤ reads.invalidated := by
      rcases invalidates with earlier | ⟨more, _⟩
      · exact earlier
      · exact absurd (List.isEmpty_iff.mp returns) more
    refine ⟨fresh.inFlight, fresh.bounded, Nat.max_le.mpr ⟨fresh.settled, last⟩, ?_, ?_, ?_,
      fresh.answers⟩
    · exact fun other member => fresh.finishes other (List.mem_of_mem_eraseIdx member)
    · exact fun other member => fresh.effected other (List.mem_of_mem_eraseIdx member)
    · exact fun other member => fresh.invalidates other (List.mem_of_mem_eraseIdx member)
  · rw [if_neg returns]
    refine ⟨fresh.inFlight, fresh.bounded, fresh.settled, ?_, ?_, ?_, fresh.answers⟩
    · intro other member
      rcases List.mem_or_eq_of_mem_set member with old | rfl
      · exact fresh.finishes other old
      · exact finishes
    · intro other member
      rcases List.mem_or_eq_of_mem_set member with old | rfl
      · exact fresh.effected other old
      · exact effected
    · intro other member
      rcases List.mem_or_eq_of_mem_set member with old | rfl
      · exact fresh.invalidates other old
      · exact invalidates.imp_right And.right

/-- An effect keeps the readings fresh, if what is left of the call invalidates them. -/
theorem fresh_addEffect (fresh : reads.Fresh) (index : Nat) {stages : List MutationStage}
    (finishes : ∀ last, TreeMutation.Finishes ⟨stages, last⟩)
    (invalidates : ∀ last, TreeMutation.Invalidates ⟨stages, last⟩) :
    (reads.addEffect index stages).Fresh := by
  have more : reads.effects ≤ (reads.addEffect index stages).effects := Nat.le_succ _
  refine ⟨fresh.inFlight, fresh.bounded.trans more, fresh.settled, ?_, ?_, ?_, fresh.answers⟩
  · intro other member
    rcases List.mem_or_eq_of_mem_set member with old | rfl
    · exact fresh.finishes other old
    · exact finishes _
  · intro other member
    rcases List.mem_or_eq_of_mem_set member with old | rfl
    · exact (fresh.effected other old).trans more
    · exact Nat.le_refl _
  · intro other member
    rcases List.mem_or_eq_of_mem_set member with old | rfl
    · exact fresh.invalidates other old
    · exact .inr (invalidates _)

theorem fresh_erase (fresh : reads.Fresh) (index : Nat) :
    Fresh { reads with calls := reads.calls.eraseIdx index } where
  inFlight := fresh.inFlight
  bounded := fresh.bounded
  settled := fresh.settled
  finishes := fun other member => fresh.finishes other (List.mem_of_mem_eraseIdx member)
  effected := fun other member => fresh.effected other (List.mem_of_mem_eraseIdx member)
  invalidates := fun other member => fresh.invalidates other (List.mem_of_mem_eraseIdx member)
  answers := fresh.answers

/-- A listing is answered by a reading that began after the last invalidation. -/
theorem fresh_listFiles (fresh : reads.Fresh) (key : TreeReadKey) :
    (reads.listFiles key).Fresh := by
  have answered : ∀ {read : Nat} {answer : TreeRead}, reads.invalidated ≤ answer.began →
      ∀ other ∈ reads.answers ++ [⟨answer.began, reads.settled⟩], other.settled ≤ other.began := by
    intro read answer began other member
    rcases List.mem_append.mp member with old | new
    · exact fresh.answers other old
    · rw [List.mem_singleton.mp new]
      exact fresh.settled.trans began
  have started : ∀ read : TreeReads × Nat, read = (reads.startRead key, reads.reads.length) →
      Fresh { read.1 with
        answers := reads.answers ++
          (read.1.reads[read.2]?.map fun answer => ⟨answer.began, reads.settled⟩).toList } := by
    rintro _ rfl
    have last : (reads.startRead key).reads[reads.reads.length]? = some ⟨key, reads.effects⟩ :=
      List.getElem?_concat_length
    dsimp only
    rw [last]
    refine ⟨?_, fresh.bounded, fresh.settled, fresh.finishes, fresh.effected, fresh.invalidates,
      @answered 0 ⟨key, reads.effects⟩ fresh.bounded⟩
    intro other generation read held
    rcases Table.holds_set.mp held with ⟨rfl, new⟩ | ⟨_, old⟩
    · obtain ⟨_, rfl⟩ := Prod.mk.inj new
      exact ⟨_, last, fresh.bounded⟩
    · obtain ⟨answer, listed, began⟩ := fresh.inFlight other generation read old
      refine ⟨answer, ?_, began⟩
      unfold startRead
      rw [List.getElem?_append_left (List.getElem?_eq_some_iff.mp listed).1]
      exact listed
  unfold listFiles coalescedTreeRead
  dsimp only
  split
  · rename_i generation read found
    by_cases current : generation = reads.treeReadGeneration
    · rw [if_pos current]
      obtain ⟨answer, listed, began⟩ :=
        fresh.inFlight key generation read (Table.holds_of_get found)
      dsimp only
      rw [listed]
      exact ⟨fresh.inFlight, fresh.bounded, fresh.settled, fresh.finishes, fresh.effected,
        fresh.invalidates, @answered read answer began⟩
    · rw [if_neg current]
      exact started _ rfl
  · exact started _ rfl

theorem fresh_settleRead (fresh : reads.Fresh) (read : Nat) : (reads.settleRead read).Fresh := by
  unfold settleRead
  split
  · exact fresh
  · split
    · split
      · refine ⟨?_, fresh.bounded, fresh.settled, fresh.finishes, fresh.effected,
          fresh.invalidates, fresh.answers⟩
        intro key generation other held
        exact fresh.inFlight key generation other (Table.holds_delete.mp held).2
      · exact fresh
    · exact fresh

/-- A call passes a stage that does not invalidate the readings. -/
theorem fresh_pass (fresh : reads.Fresh) {index : Nat} {stage : MutationStage}
    {rest : List MutationStage} {last : Nat}
    (found : reads.calls[index]? = some ⟨stage :: rest, last⟩)
    (silent : ∀ edit, stage ≠ .applyEdit edit true) (idle : stage ≠ .materialize true)
    (unread : stage ≠ .contentPersisted) (unfinished : stage ≠ .finishTreeMutation)
    {more : List MutationStage} (kept : ∀ other ∈ rest, other ∈ more)
    (finishes : TreeMutation.Finishes ⟨more, last⟩) : (reads.goOn index ⟨more, last⟩).Fresh := by
  have member := List.mem_of_getElem? found
  have effected : last ≤ reads.effects := fresh.effected _ member
  refine fresh_goOn fresh index finishes effected ?_
  refine (fresh.invalidates _ member).imp_right ?_
  rintro (⟨edit, head⟩ | head | head | later)
  · exact absurd (Option.some.inj head) (silent edit)
  · exact absurd (Option.some.inj head) idle
  · exact absurd (Option.some.inj head) unread
  · rcases List.mem_cons.mp later with same | inRest
    · exact absurd same.symm unfinished
    · exact ⟨List.ne_nil_of_mem (kept _ inRest), .inr (.inr (.inr (kept _ inRest)))⟩

/-- A call passes a stage that invalidates the readings. -/
theorem fresh_passInvalidated (fresh : reads.Fresh) {index : Nat} {stage : MutationStage}
    {rest : List MutationStage} {last : Nat}
    (found : reads.calls[index]? = some ⟨stage :: rest, last⟩) :
    (reads.invalidateTreeReads.goOn index ⟨rest, last⟩).Fresh := by
  have member := List.mem_of_getElem? found
  have effected : last ≤ reads.effects := fresh.effected _ member
  exact fresh_goOn (fresh_invalidate fresh) index ((fresh.finishes _ member).rest last)
    effected (.inl effected)

/-- Every step keeps the readings fresh, as long as edits persist the notes they create. -/
theorem fresh_step {label : TreeReadsLabel} {next : TreeReads} (fresh : reads.Fresh)
    (persists : reads.PersistsCreated label)
    (stepped : treeReadsMachine.step reads label = some next) : next.Fresh := by
  cases label with
  | listFiles key =>
      obtain rfl := Option.some.inj stepped
      exact fresh_listFiles fresh key
  | settle read =>
      obtain rfl := Option.some.inj stepped
      exact fresh_settleRead fresh read
  | emitChange =>
      obtain rfl := Option.some.inj stepped
      exact fresh_invalidate fresh
  | call mutation =>
      obtain rfl := Option.some.inj stepped
      have begun := fresh_invalidate fresh
      refine ⟨begun.inFlight, begun.bounded, begun.settled, ?_, ?_, ?_, begun.answers⟩
      · intro call member
        rcases List.mem_append.mp member with old | new
        · exact fresh.finishes call old
        · rw [List.mem_singleton.mp new]
          exact TreeMutation.finishes_call mutation
      · intro call member
        rcases List.mem_append.mp member with old | new
        · exact fresh.effected call old
        · rw [List.mem_singleton.mp new]
          exact Nat.zero_le _
      · intro call member
        rcases List.mem_append.mp member with old | new
        · exact begun.invalidates call old
        · rw [List.mem_singleton.mp new]
          exact .inl (Nat.zero_le _)
  | effect index =>
      simp only [treeReadsMachine] at stepped
      split at stepped
      · rename_i rest last found
        obtain rfl := Option.some.inj stepped
        have finishes := fresh.finishes _ (List.mem_of_getElem? found)
        refine fresh_addEffect fresh index (fun _ => finishes) fun _ => ?_
        exact .inr (.inr (.inr (List.mem_of_getLast? (finishes List.mem_cons_self))))
      · cases stepped
  | pass index =>
      have silent : ∀ {stage : MutationStage} {rest : List MutationStage} {last : Nat},
          reads.calls[index]? = some ⟨stage :: rest, last⟩ → (∀ edit, stage ≠ .applyEdit edit true) →
            stage ≠ .materialize true → stage ≠ .contentPersisted →
              stage ≠ .finishTreeMutation → (reads.goOn index ⟨rest, last⟩).Fresh :=
        fun found silent idle unread unfinished => fresh_pass fresh found silent idle unread unfinished
          (fun _ => id) ((fresh.finishes _ (List.mem_of_getElem? found)).rest _)
      simp only [treeReadsMachine] at stepped
      split at stepped
      · rename_i found
        obtain rfl := Option.some.inj stepped
        exact silent found (fun _ => nofun) nofun nofun nofun
      · rename_i found
        obtain rfl := Option.some.inj stepped
        exact silent found (fun _ => nofun) nofun nofun nofun
      · rename_i found
        obtain rfl := Option.some.inj stepped
        exact silent found (fun _ => nofun) nofun nofun nofun
      · rename_i found
        obtain rfl := Option.some.inj stepped
        exact silent found (fun _ => nofun) nofun nofun nofun
      · rename_i found
        obtain rfl := Option.some.inj stepped
        exact fresh_passInvalidated fresh found
      · rename_i found
        obtain rfl := Option.some.inj stepped
        exact fresh_passInvalidated fresh found
      · cases stepped
  | fail index finishes =>
      simp only [treeReadsMachine] at stepped
      split at stepped
      · obtain rfl := Option.some.inj stepped
        split
        · exact fresh_invalidate (fresh_erase fresh index)
        · exact fresh_erase fresh index
      · cases stepped
  | opened index created =>
      simp only [treeReadsMachine] at stepped
      split at stepped
      · rename_i edit rest last found
        obtain rfl := Option.some.inj stepped
        have before := fresh.finishes _ (List.mem_of_getElem? found)
        split
        · exact fresh_addEffect fresh index (before.replace (.applyEdit edit true) nofun) fun _ => .inl ⟨edit, rfl⟩
        · exact fresh_pass fresh found (fun _ => nofun) nofun nofun nofun
            (fun _ => List.mem_cons_of_mem _) (before.replace (.applyEdit edit false) nofun last)
      · cases stepped
  | edited index current spliced retried =>
      simp only [treeReadsMachine] at stepped
      split at stepped
      · rename_i edit created rest last found
        obtain rfl := Option.some.inj stepped
        have member := List.mem_of_getElem? found
        have before := fresh.finishes _ member
        cases created with
        | false =>
            split
            · exact fresh_pass fresh found (fun _ => nofun) nofun nofun nofun
                (fun _ => List.mem_cons_of_mem _) (before.replace (.materialize false) nofun last)
            · exact fresh_pass fresh found (fun _ => nofun) nofun nofun nofun (fun _ => id)
                (before.rest last)
        | true =>
            simp only [PersistsCreated, found] at persists
            rw [if_pos persists]
            have effected : last ≤ reads.effects := fresh.effected _ member
            exact fresh_goOn fresh index (before.replace (.materialize true) nofun last) effected
              (.inr ⟨List.cons_ne_nil _ _, .inr (.inl rfl)⟩)
      · cases stepped
  | materialized index outcome =>
      simp only [treeReadsMachine] at stepped
      split at stepped
      · rename_i created rest last found
        have before := fresh.finishes _ (List.mem_of_getElem? found)
        split at stepped
        · obtain rfl := Option.some.inj stepped
          exact fresh_addEffect fresh index (before.replace .contentPersisted nofun)
            fun _ => .inr (.inr (.inl rfl))
        · obtain rfl := Option.some.inj stepped
          exact fresh_passInvalidated fresh found
        · obtain rfl := Option.some.inj stepped
          cases created with
          | false =>
              exact fresh_pass fresh found (fun _ => nofun) nofun nofun nofun (fun _ => id)
                (before.rest last)
          | true =>
              simp only [PersistsCreated, found] at persists
              exact absurd rfl persists
        · obtain rfl := Option.some.inj stepped
          exact fresh_erase (fresh_invalidate fresh) index
      · cases stepped

theorem fresh_new : new.Fresh where
  inFlight := nofun
  bounded := Nat.le_refl _
  settled := Nat.le_refl _
  finishes := nofun
  effected := nofun
  invalidates := nofun
  answers := nofun

end TreeReads

end Kb1Daemon
