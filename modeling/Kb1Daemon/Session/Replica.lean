import Kb1Daemon.Session.Runtime

/-! # A concrete runtime

A document is the list of its inserted units in text order, each with the client
that inserted it and its clock; a deletion only marks units. Updates insert or
delete at a position of the text, a delta keeps the common prefix of the two
texts, and the digest of a content is the content itself. A stored state is the
text it restores; one that ends in the unit `0xFFFF` is a damaged state, whose
restore throws after the part before the damage has been applied.

The concrete runs of this development use this runtime.
-/

namespace Kb1Daemon

/-- One inserted unit of a document. -/
structure ReplicaItem where
  client : Nat
  clock : Nat
  unit : CodeUnit
  deleted : Bool
  deriving DecidableEq, Repr

/-- An insertion by a client, or a deletion, at a position of the text. -/
inductive ReplicaUpdate where
  | insert (client index : Nat) (content : JsString)
  | delete (index length : Nat)
  deriving DecidableEq, Repr

namespace Replica

/-- The units that are not deleted. -/
def text (items : List ReplicaItem) : JsString :=
  (items.filter fun item => !item.deleted).map ReplicaItem.unit

/-- The clock of a client: how many units it has inserted. -/
def clock (items : List ReplicaItem) (client : Nat) : Nat :=
  items.countP fun item => item.client = client

/-- The items a client inserts for a content. -/
def newItems (client start : Nat) (content : JsString) : List ReplicaItem :=
  content.mapIdx fun offset unit => ⟨client, start + offset, unit, false⟩

/-- Put items before the unit at a position of the text. -/
def insertItems (added : List ReplicaItem) : List ReplicaItem → Nat → List ReplicaItem
  | items, 0 => added ++ items
  | [], _ + 1 => added
  | item :: items, index + 1 =>
      item :: insertItems added items (if item.deleted then index + 1 else index)

/-- Mark a range of the text as deleted. -/
def deleteItems : List ReplicaItem → Nat → Nat → List ReplicaItem
  | [], _, _ => []
  | item :: items, _, 0 => item :: items
  | item :: items, 0, length + 1 =>
      if item.deleted then item :: deleteItems items 0 (length + 1)
      else { item with deleted := true } :: deleteItems items 0 length
  | item :: items, index + 1, length + 1 =>
      item :: deleteItems items (if item.deleted then index + 1 else index) (length + 1)

@[simp] theorem text_nil : text [] = [] := rfl

theorem text_append (first second : List ReplicaItem) :
    text (first ++ second) = text first ++ text second := by
  simp [text]

theorem text_cons (item : ReplicaItem) (items : List ReplicaItem) :
    text (item :: items) = if item.deleted then text items else item.unit :: text items := by
  cases deleted : item.deleted <;> simp [text, deleted]

theorem text_newItems (client start : Nat) (content : JsString) :
    text (newItems client start content) = content := by
  induction content generalizing start with
  | nil => rfl
  | cons unit content ih =>
      rw [newItems, List.mapIdx_cons, text_cons]
      have shifted := ih (start + 1)
      simp only [newItems] at shifted
      simpa [Nat.add_assoc, Nat.add_comm, Nat.add_left_comm] using shifted

theorem text_insertItems (added items : List ReplicaItem) (index : Nat) :
    text (insertItems added items index) =
      (text items).take index ++ text added ++ (text items).drop index := by
  induction items generalizing index with
  | nil => cases index <;> simp [insertItems]
  | cons item items ih =>
      cases index with
      | zero => simp [insertItems, text_append]
      | succ index =>
          rw [insertItems, text_cons, text_cons, ih]
          cases item.deleted <;> simp

theorem text_deleteItems (items : List ReplicaItem) (index length : Nat) :
    text (deleteItems items index length) =
      (text items).take index ++ (text items).drop (index + length) := by
  induction items generalizing index length with
  | nil => simp [deleteItems]
  | cons item items ih =>
      cases length with
      | zero => simp [deleteItems]
      | succ length =>
          cases index with
          | zero =>
              rw [deleteItems]
              cases deleted : item.deleted <;> simp [text_cons, deleted, ih]
          | succ index =>
              rw [deleteItems, text_cons, text_cons, ih]
              cases item.deleted <;> simp [Nat.add_right_comm index 1 (length + 1)]

/-- The length of the common prefix of two texts. -/
def commonPrefix : JsString → JsString → Nat
  | first :: firsts, second :: seconds =>
      if first = second then commonPrefix firsts seconds + 1 else 0
  | _, _ => 0

theorem take_commonPrefix_append (first second : JsString) :
    first.take (commonPrefix first second) ++ second.drop (commonPrefix first second) = second := by
  induction first generalizing second with
  | nil => simp [commonPrefix]
  | cons unit first ih =>
      cases second with
      | nil => simp [commonPrefix]
      | cons other second =>
          by_cases same : unit = other
          · subst same
            simp [commonPrefix, ih]
          · simp [commonPrefix, same]

/-- Insert a content for a client at a position of the text. -/
def insert (items : List ReplicaItem) (client index : Nat) (content : JsString) :
    List ReplicaItem :=
  insertItems (newItems client (clock items client) content) items index

/-- Apply an update. -/
def applyUpdate (items : List ReplicaItem) : ReplicaUpdate → List ReplicaItem
  | .insert client index content => insert items client index content
  | .delete index length => deleteItems items index length

/-- Turn the text into another one, keeping their common prefix. -/
def applyDelta (items : List ReplicaItem) (next : JsString) : List ReplicaItem :=
  let kept := commonPrefix (text items) next
  insert (deleteItems items kept ((text items).length - kept)) 0 kept (next.drop kept)

theorem text_insert (items : List ReplicaItem) (client index : Nat) (content : JsString) :
    text (insert items client index content) =
      (text items).take index ++ content ++ (text items).drop index := by
  rw [insert, text_insertItems, text_newItems]

theorem commonPrefix_le (first second : JsString) :
    commonPrefix first second ≤ first.length := by
  induction first generalizing second with
  | nil => simp [commonPrefix]
  | cons unit first ih =>
      cases second with
      | nil => simp [commonPrefix]
      | cons other second =>
          by_cases same : unit = other
          · simpa [commonPrefix, same] using ih second
          · simp [commonPrefix, same]

theorem text_applyDelta (items : List ReplicaItem) (next : JsString) :
    text (applyDelta items next) = next := by
  have bounded := commonPrefix_le (text items) next
  rw [applyDelta, text_insert, text_deleteItems]
  have rest : (text items).drop (commonPrefix (text items) next +
      ((text items).length - commonPrefix (text items) next)) = [] := by
    apply List.drop_eq_nil_of_le
    omega
  have empty : ((text items).take (commonPrefix (text items) next)).drop
      (commonPrefix (text items) next) = [] := by
    apply List.drop_eq_nil_of_le
    rw [List.length_take]
    exact Nat.min_le_left _ _
  rw [rest, List.append_nil, List.take_take, Nat.min_self, empty, List.append_nil,
    take_commonPrefix_append]

/-- One more than the largest client of a document. -/
def clientBound (items : List ReplicaItem) : Nat :=
  items.foldr (fun item bound => max (item.client + 1) bound) 0

/-- The clocks of the clients up to the largest one, each in unary. -/
def encodeStateVector (items : List ReplicaItem) : JsString :=
  (List.range (clientBound items)).flatMap fun client =>
    List.replicate (clock items client) 1 ++ [0]

/-- A damaged stored state. -/
def damaged (state : JsString) : Bool := state.getLast? = some 0xFFFF

end Replica

/-- The concrete runtime. -/
def replicaRuntime : Runtime where
  Doc := List ReplicaItem
  Update := ReplicaUpdate
  Attribution := Nat
  emptyDoc := []
  text := Replica.text
  applyUpdate := Replica.applyUpdate
  firesUpdate := fun items update => Replica.applyUpdate items update ≠ items
  applyDelta := Replica.applyDelta
  insert := fun items index content => Replica.insert items 0 index content
  delete := Replica.deleteItems
  encodeStateVector := Replica.encodeStateVector
  encodeState := Replica.text
  restoreState := fun items state =>
    if Replica.damaged state then (Replica.insert items 0 0 state.dropLast, true)
    else (Replica.insert items 0 0 state, false)
  hashContent := id
  text_emptyDoc := rfl
  text_silent := by
    intro items update silent
    have same : Replica.applyUpdate items update = items := by simpa using silent
    rw [same]
  text_applyDelta := Replica.text_applyDelta
  text_insert := fun items index content _ => Replica.text_insert items 0 index content
  text_delete := Replica.text_deleteItems

end Kb1Daemon
