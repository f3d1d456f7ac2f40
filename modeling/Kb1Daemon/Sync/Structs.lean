import Kb1Daemon.Session.Replica

/-! # Structs and their dependencies

A document's history consists of structs. Each is named by the client that made
it and its clock, and refers to the structs to its left and right when it was
inserted. A document integrates a struct only when these and the client's
previous struct are present. So the first struct that a fresh document integrates
depends on nothing (`exists_rootless`): an update shows text in a fresh document
only if it carries a struct that was inserted where there was nothing.
-/

namespace Kb1Daemon

/-- The name of one unit of a struct: its client and clock. -/
abbrev StructId := Nat × Nat

/-- A struct: `length` units of a client from a clock on, with its origins. -/
structure SyncStruct where
  client : Nat
  clock : Nat
  length : Nat
  left : Option StructId
  right : Option StructId
  deriving DecidableEq, Repr

namespace SyncStruct

/-- The ids that must be present before the struct is integrated. -/
def needs (struct : SyncStruct) : List StructId :=
  struct.left.toList ++ struct.right.toList ++
    if struct.clock = 0 then [] else [(struct.client, struct.clock - 1)]

/-- The struct holds the unit with the given id. -/
def holds (struct : SyncStruct) (id : StructId) : Bool :=
  struct.client == id.1 && struct.clock ≤ id.2 && id.2 < struct.clock + struct.length

/-- The struct depends on nothing: it is its client's first and has no origin. -/
def rootless (struct : SyncStruct) : Bool :=
  struct.left.isNone && struct.right.isNone && struct.clock == 0

theorem rootless_of_needs {struct : SyncStruct} (none : struct.needs = []) :
    struct.rootless = true := by
  unfold needs at none
  rw [List.append_eq_nil_iff, List.append_eq_nil_iff] at none
  obtain ⟨⟨left, right⟩, clock⟩ := none
  have first : struct.clock = 0 := by
    by_contra later
    simp [later] at clock
  simp [rootless, Option.toList_eq_nil_iff.mp left, Option.toList_eq_nil_iff.mp right, first]

end SyncStruct

/-- Everything the struct needs is held by the given ones. -/
def Integrable (present : List SyncStruct) (struct : SyncStruct) : Prop :=
  ∀ id ∈ struct.needs, ∃ earlier ∈ present, earlier.holds id = true

instance (present : List SyncStruct) (struct : SyncStruct) :
    Decidable (Integrable present struct) := by
  unfold Integrable
  infer_instance

/-- Every struct of the list is integrable after those before it. -/
def Causal (structs : List SyncStruct) : Prop :=
  ∀ before struct after, structs = before ++ struct :: after → Integrable before struct

/-- A history that is not empty starts with a struct that depends on nothing. -/
theorem exists_rootless {structs : List SyncStruct} (causal : Causal structs)
    (held : structs ≠ []) : ∃ struct ∈ structs, struct.rootless = true := by
  cases structs with
  | nil => exact absurd rfl held
  | cons struct rest =>
      have first := causal [] struct rest rfl
      refine ⟨struct, List.mem_cons_self, SyncStruct.rootless_of_needs ?_⟩
      rw [List.eq_nil_iff_forall_not_mem]
      intro id needed
      obtain ⟨earlier, absent, _⟩ := first id needed
      cases absent

/-- A runtime together with the histories of its documents. -/
structure SyncRuntime extends Runtime where
  /-- The integrated structs of a document, in the order of their integration. -/
  structs : Doc → List SyncStruct
  /-- The structs an update carries. -/
  updateStructs : Update → List SyncStruct
  /-- `Y.decodeStateVector(Y.encodeStateVector(doc))`. -/
  stateVector : Doc → List (Nat × Nat)
  /-- The document of a client after its initial sync with a session's document. -/
  sync : Doc → Doc
  /-- A client replaces a range of its text in one transaction. -/
  edit : Nat → Doc → Nat → Nat → JsString → Doc × Update
  /-- The payload of the update event by which a document has become another. -/
  change : Doc → Doc → Option Update
  /-- A fresh document integrates what an update carries. -/
  structs_fresh : ∀ update struct, struct ∈ structs (applyUpdate emptyDoc update) →
    struct ∈ updateStructs update
  /-- It integrates a struct only when the ones it depends on are present. -/
  causal_fresh : ∀ update, Causal (structs (applyUpdate emptyDoc update))
  /-- Its text consists of integrated structs. -/
  text_fresh : ∀ update, text (applyUpdate emptyDoc update) ≠ [] →
    structs (applyUpdate emptyDoc update) ≠ []
  /-- Histories only grow. -/
  structs_applyUpdate : ∀ doc update, structs doc ≠ [] → structs (applyUpdate doc update) ≠ []
  structs_applyDelta : ∀ doc content, structs doc ≠ [] → structs (applyDelta doc content) ≠ []
  structs_edit : ∀ client doc index length content, structs doc ≠ [] →
    structs (edit client doc index length content).1 ≠ []
  /-- A synced client has the session's history. -/
  structs_sync : ∀ doc, structs doc ≠ [] → structs (sync doc) ≠ []
  /-- Only an insertion into a document without structs has no origins. -/
  rooted_edit : ∀ client doc index length content struct, (structs doc = [] → content = []) →
    struct ∈ updateStructs (edit client doc index length content).2 → struct.rootless = false

/-- An update that shows text in a fresh document carries a struct that depends on
nothing. -/
theorem SyncRuntime.rootless_of_text (S : SyncRuntime) {update : S.Update}
    (shows : S.text (S.applyUpdate S.emptyDoc update) ≠ []) :
    ∃ struct ∈ S.updateStructs update, struct.rootless = true := by
  obtain ⟨struct, integrated, rootless⟩ :=
    exists_rootless (S.causal_fresh update) (S.text_fresh update shows)
  exact ⟨struct, S.structs_fresh update struct integrated, rootless⟩

end Kb1Daemon
