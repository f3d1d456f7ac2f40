import Kb1Daemon.Sync.Structs
import Mathlib.Algebra.GroupWithZero.Nat

/-! # A concrete runtime with histories

A document is a replica together with the log of the updates it has integrated.
An update replaces a range of the text and carries one struct for what it
inserts. Local edits are always integrated; a remote update is integrated if its
struct is, and dropped otherwise. An insertion takes the last unit of the log as
its left origin.
-/

namespace Kb1Daemon

/-- The replacement of a range of the text, with the struct of what it inserts. -/
structure LoggedUpdate where
  index : Nat
  length : Nat
  insertion : Option (SyncStruct × JsString)
  deriving DecidableEq, Repr

/-- The struct an update carries. -/
def LoggedUpdate.structs (update : LoggedUpdate) : List SyncStruct :=
  (update.insertion.map Prod.fst).toList

/-- A replica with the updates it has integrated. -/
structure LoggedDoc where
  items : List ReplicaItem
  log : List LoggedUpdate
  deriving DecidableEq, Repr

namespace LoggedDoc

/-- A document without a history. -/
def empty : LoggedDoc := ⟨[], []⟩

/-- The structs of the integrated updates. -/
def structs (doc : LoggedDoc) : List SyncStruct := doc.log.flatMap LoggedUpdate.structs

/-- The items of the text after an update. -/
def replace (doc : LoggedDoc) (update : LoggedUpdate) : List ReplicaItem :=
  match update.insertion with
  | none => Replica.deleteItems doc.items update.index update.length
  | some (struct, content) =>
      Replica.insertItems (Replica.newItems struct.client struct.clock content)
        (Replica.deleteItems doc.items update.index update.length) update.index

/-- Integrate an update. -/
def integrate (doc : LoggedDoc) (update : LoggedUpdate) : LoggedDoc :=
  ⟨doc.replace update, doc.log ++ [update]⟩

/-- Apply a remote update. -/
def applyUpdate (doc : LoggedDoc) (update : LoggedUpdate) : LoggedDoc :=
  if ∀ struct ∈ update.structs, Integrable doc.structs struct then doc.integrate update else doc

/-- The units a client has inserted. -/
def clock (doc : LoggedDoc) (client : Nat) : Nat :=
  ((doc.structs.filter fun struct => struct.client = client).map SyncStruct.length).sum

/-- The last inserted unit. -/
def lastId (doc : LoggedDoc) : Option StructId :=
  doc.structs.getLast?.map fun struct => (struct.client, struct.clock + struct.length - 1)

/-- The update by which a client replaces a range of the text. -/
def localUpdate (doc : LoggedDoc) (client index length : Nat) (content : JsString) :
    LoggedUpdate where
  index := index
  length := length
  insertion :=
    if content = [] then none
    else some (⟨client, doc.clock client, content.length, doc.lastId, none⟩, content)

/-- A client replaces a range of the text. -/
def edit (client : Nat) (doc : LoggedDoc) (index length : Nat) (content : JsString) :
    LoggedDoc × LoggedUpdate :=
  let update := doc.localUpdate client index length content
  (doc.integrate update, update)

/-- Turn the text into another one, keeping their common prefix. -/
def applyDelta (doc : LoggedDoc) (next : JsString) : LoggedDoc :=
  let text := Replica.text doc.items
  let kept := Replica.commonPrefix text next
  (edit 0 doc kept (text.length - kept) (next.drop kept)).1

/-- The clients of a document with their clocks. -/
def stateVector (doc : LoggedDoc) : List (Nat × Nat) :=
  (doc.structs.map SyncStruct.client).dedup.map fun client => (client, doc.clock client)

/-- The update a document has integrated since an earlier state of it. -/
def change (before after : LoggedDoc) : Option LoggedUpdate :=
  if before.log.length < after.log.length then after.log.getLast? else none

theorem text_replace_localUpdate (doc : LoggedDoc) (client index length : Nat)
    (content : JsString) :
    Replica.text (doc.integrate (doc.localUpdate client index length content)).items =
      ((Replica.text doc.items).take index ++
        (Replica.text doc.items).drop (index + length)).take index ++ content ++
      ((Replica.text doc.items).take index ++
        (Replica.text doc.items).drop (index + length)).drop index := by
  by_cases blank : content = []
  · simp [integrate, replace, localUpdate, blank, Replica.text_deleteItems]
  · simp [integrate, replace, localUpdate, blank, Replica.text_insertItems,
      Replica.text_newItems, Replica.text_deleteItems]

theorem text_applyDelta (doc : LoggedDoc) (next : JsString) :
    Replica.text (doc.applyDelta next).items = next := by
  have same := Replica.text_applyDelta doc.items next
  rw [Replica.applyDelta, Replica.text_insert, Replica.text_deleteItems] at same
  exact (text_replace_localUpdate doc 0 _ _ _).trans same

theorem text_insert (doc : LoggedDoc) (index : Nat) (content : JsString) :
    Replica.text (edit 0 doc index 0 content).1.items =
      (Replica.text doc.items).take index ++ content ++
        (Replica.text doc.items).drop index := by
  refine (text_replace_localUpdate doc 0 index 0 content).trans ?_
  rw [Nat.add_zero, List.take_append_drop]

theorem text_delete (doc : LoggedDoc) (index length : Nat) :
    Replica.text (edit 0 doc index length []).1.items =
      (Replica.text doc.items).take index ++ (Replica.text doc.items).drop (index + length) := by
  refine (text_replace_localUpdate doc 0 index length []).trans ?_
  rw [List.append_nil, List.take_append_drop]

theorem structs_integrate (doc : LoggedDoc) (update : LoggedUpdate) :
    (doc.integrate update).structs = doc.structs ++ update.structs := by
  simp [structs, integrate]

theorem structs_integrate_ne (doc : LoggedDoc) (update : LoggedUpdate)
    (held : doc.structs ≠ []) : (doc.integrate update).structs ≠ [] := by
  rw [structs_integrate]
  exact List.append_ne_nil_of_left_ne_nil held _

/-- A fresh document integrates all of an update whose structs need nothing, and
nothing of another one. -/
theorem applyUpdate_empty (update : LoggedUpdate) :
    empty.applyUpdate update = empty ∨
      (empty.applyUpdate update = empty.integrate update ∧
        ∀ struct ∈ update.structs, Integrable [] struct) := by
  unfold applyUpdate
  split
  · rename_i integrable
    exact .inr ⟨rfl, integrable⟩
  · exact .inl rfl

theorem causal_applyUpdate_empty (update : LoggedUpdate) :
    Causal (empty.applyUpdate update).structs := by
  intro before struct after split
  rcases applyUpdate_empty update with dropped | ⟨integrated, integrable⟩
  · rw [dropped] at split
    exact absurd split.symm (List.append_ne_nil_of_right_ne_nil _ (List.cons_ne_nil _ _))
  · rw [integrated, structs_integrate] at split
    change update.structs = before ++ struct :: after at split
    have carried : struct ∈ update.structs := by
      rw [split]
      exact List.mem_append_right _ List.mem_cons_self
    intro id needed
    obtain ⟨earlier, absent, _⟩ := integrable struct carried id needed
    cases absent

theorem text_applyUpdate_empty (update : LoggedUpdate)
    (shows : Replica.text (empty.applyUpdate update).items ≠ []) :
    (empty.applyUpdate update).structs ≠ [] := by
  rcases applyUpdate_empty update with dropped | ⟨integrated, _⟩
  · rw [dropped] at shows
    exact absurd rfl shows
  · rw [integrated] at shows ⊢
    rw [structs_integrate]
    cases inserted : update.insertion with
    | none =>
        refine absurd ?_ shows
        simp [integrate, replace, inserted, empty, Replica.deleteItems]
    | some insertion => simp [LoggedUpdate.structs, inserted]

theorem rooted_localUpdate (doc : LoggedDoc) (client index length : Nat) (content : JsString)
    {struct : SyncStruct} (seeded : doc.structs = [] → content = [])
    (carried : struct ∈ (doc.localUpdate client index length content).structs) :
    struct.rootless = false := by
  unfold localUpdate LoggedUpdate.structs at carried
  by_cases blank : content = []
  · simp [blank] at carried
  · obtain ⟨last, found⟩ := List.getLast?_isSome.mpr (fun none => blank (seeded none)) |>
      Option.isSome_iff_exists.mp
    simp only [blank, ↓reduceIte, Option.map_some, Option.toList_some, List.mem_singleton]
      at carried
    simp [carried, SyncStruct.rootless, lastId, found]

end LoggedDoc

/-- The concrete runtime with histories. -/
def replicaSync : SyncRuntime where
  Doc := LoggedDoc
  Update := LoggedUpdate
  Attribution := Nat
  emptyDoc := .empty
  text := fun doc => Replica.text doc.items
  applyUpdate := LoggedDoc.applyUpdate
  firesUpdate := fun doc update => doc.applyUpdate update ≠ doc
  applyDelta := LoggedDoc.applyDelta
  insert := fun doc index content => (LoggedDoc.edit 0 doc index 0 content).1
  delete := fun doc index length => (LoggedDoc.edit 0 doc index length []).1
  encodeStateVector := fun doc => Replica.encodeStateVector doc.items
  encodeState := fun doc => Replica.text doc.items
  restoreState := fun doc state =>
    if Replica.damaged state then ((LoggedDoc.edit 0 doc 0 0 state.dropLast).1, true)
    else ((LoggedDoc.edit 0 doc 0 0 state).1, false)
  hashContent := id
  text_emptyDoc := rfl
  text_silent := by
    intro doc update silent
    have same : doc.applyUpdate update = doc := by simpa using silent
    rw [same]
  text_applyDelta := LoggedDoc.text_applyDelta
  text_insert := fun doc index content _ => doc.text_insert index content
  text_delete := LoggedDoc.text_delete
  structs := LoggedDoc.structs
  updateStructs := LoggedUpdate.structs
  stateVector := LoggedDoc.stateVector
  sync := id
  edit := LoggedDoc.edit
  change := LoggedDoc.change
  structs_fresh := by
    intro update struct held
    rcases LoggedDoc.applyUpdate_empty update with dropped | ⟨integrated, _⟩
    · rw [dropped] at held
      cases held
    · rw [integrated, LoggedDoc.structs_integrate] at held
      exact held
  causal_fresh := LoggedDoc.causal_applyUpdate_empty
  text_fresh := LoggedDoc.text_applyUpdate_empty
  structs_applyUpdate := by
    intro doc update held
    unfold LoggedDoc.applyUpdate
    split
    · exact doc.structs_integrate_ne update held
    · exact held
  structs_applyDelta := fun doc _ held => doc.structs_integrate_ne _ held
  structs_edit := fun _ doc _ _ _ held => doc.structs_integrate_ne _ held
  structs_sync := fun _ held => held
  rooted_edit := fun client doc index length content _ seeded carried =>
    doc.rooted_localUpdate client index length content seeded carried

end Kb1Daemon
