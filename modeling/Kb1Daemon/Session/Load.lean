import Kb1Daemon.Foundation.Machine
import Kb1Daemon.Session.Persist
import Kb1Daemon.Session.Replica

/-! # Opening a session

An open reads the markdown file, tries to restore the Yjs state of the sidecar,
inserts the content unless the restore has already produced it, and writes a
fresh sidecar unless the restored one was valid. The document of the session
object is created once, so an attempt works on whatever earlier failed attempts
have left in it.

The insertion goes in front of the text that is there. The text after a
successful open is therefore the content read exactly when the stored state was
restored without an exception or the document was empty at the insertion
(`Kb1Daemon.Session.text_eq_content_iff`).
-/

namespace Kb1Daemon

/-- How the state of a sidecar entered the document. -/
inductive RestoreOutcome where
  | disabled
  | missing
  | valid
  | stale
  | invalid
  | repaired
  deriving DecidableEq, Repr

/-- The result of reading an optional file. -/
inductive ReadResult (Value : Type) where
  | failed
  | absent
  | found (value : Value)

/-- Why an open fails. -/
inductive OpenError where
  | notFound
  | io
  deriving DecidableEq, Repr

/-- What an attempt to open finds on disk, and which of its steps fail. -/
structure OpenInput where
  createIfMissing : Bool
  markdown : ReadResult JsString
  /-- Creating the missing file fails. -/
  createFails : Bool
  sidecar : ReadResult Sidecar
  /-- Writing the sidecar fails. -/
  snapshotFails : Bool

/-- The update of a state file of the current version with the given hash. -/
def StateFile.usableUpdate (file : StateFile) (contentHash : JsString) : Option JsString :=
  if file.version = some documentSessionStateVersion ∧ file.contentHash = some contentHash then
    file.updateBase64
  else none

namespace Session

variable {R : Runtime}

/-- The content of the file, which is created with the default content when
that is asked for. -/
def readFile (defaultContent : JsString) (input : OpenInput) : Except OpenError JsString :=
  match input.markdown with
  | .failed => .error .io
  | .found content => .ok content
  | .absent =>
      if input.createIfMissing then
        if input.createFails then .error .io else .ok defaultContent
      else .error .notFound

/-- The sidecar as the restore sees it: not configured, missing, or present. -/
def readSidecar (stateFilePath : Option JsString) (input : OpenInput) :
    Except OpenError (Option (Option Sidecar)) :=
  match stateFilePath, input.sidecar with
  | none, _ => .ok none
  | some _, .failed => .error .io
  | some _, .absent => .ok (some none)
  | some _, .found sidecar => .ok (some (some sidecar))

/-- Restore the state of a sidecar into a document. -/
def tryRestoreStateSnapshot (doc : R.Doc) (content contentHash : JsString) :
    Option (Option Sidecar) → R.Doc × RestoreOutcome
  | none => (doc, .disabled)
  | some none => (doc, .missing)
  | some (some .malformed) => (doc, .invalid)
  | some (some (.parsed file)) =>
      match file.usableUpdate contentHash with
      | none => (doc, .stale)
      | some update =>
          let restored := R.restoreState doc update
          if restored.2 then (restored.1, .invalid)
          else if R.text restored.1 = content then (restored.1, .valid)
          else (R.replaceText restored.1 content, .repaired)

/-- Restore the sidecar's state into a document, and insert the content unless
the restore has produced it. -/
def hydrateDoc (doc : R.Doc) (content : JsString) (sidecar : Option (Option Sidecar)) :
    R.Doc × RestoreOutcome :=
  let restored := tryRestoreStateSnapshot doc content (R.hashContent content) sidecar
  if restored.2 = .valid ∨ restored.2 = .repaired then restored
  else (R.insert restored.1 0 content, restored.2)

/-- Hydrate the session's document, and record the content as written. -/
def hydrate (session : Session R) (content : JsString) (sidecar : Option (Option Sidecar)) :
    Session R :=
  { session with doc := (hydrateDoc session.doc content sidecar).1 }.recordContent content

/-- The session serves its document. -/
def finishOpen (session : Session R) : Session R :=
  { session with opened := true, watching := true }

/-- One attempt to open: the session afterwards, and the content read or the
error. -/
def loadFromFile (session : Session R) (input : OpenInput) :
    Session R × Except OpenError JsString :=
  match readFile session.defaultContent input with
  | .error error => (session, .error error)
  | .ok content =>
      match readSidecar session.stateFilePath input with
      | .error error => (session, .error error)
      | .ok sidecar =>
          if (hydrateDoc session.doc content sidecar).2 ≠ .valid ∧
              session.stateFilePath.isSome ∧ input.snapshotFails then
            (session.hydrate content sidecar, .error .io)
          else ((session.hydrate content sidecar).finishOpen, .ok content)

/-- The attempts to open that fail, as steps of the session object. -/
def failedOpens (R : Runtime) : Machine (Session R) OpenInput where
  step session input :=
    match session.loadFromFile input with
    | (next, .error _) => some next
    | (_, .ok _) => none

/-- The update the restore of a sidecar applies, if any. -/
def storedUpdate (contentHash : JsString) : Option (Option Sidecar) → Option JsString
  | some (some (.parsed file)) => file.usableUpdate contentHash
  | _ => none

/-- What the insertion would find is empty, or no insertion takes place: a
stored update that applies without an exception replaces the text, one that
throws leaves no text, and without one the document has no text. -/
def OpensCleanly (doc : R.Doc) (content : JsString) (sidecar : Option (Option Sidecar)) : Prop :=
  match storedUpdate (R.hashContent content) sidecar with
  | some update =>
      (R.restoreState doc update).2 = true → R.text (R.restoreState doc update).1 = []
  | none => R.text doc = []

/-- The restore outcome and the document it leaves, by the stored update. -/
theorem tryRestoreStateSnapshot_storedUpdate (doc : R.Doc) (content : JsString)
    (sidecar : Option (Option Sidecar)) :
    match storedUpdate (R.hashContent content) sidecar with
    | some update => tryRestoreStateSnapshot doc content (R.hashContent content) sidecar =
        if (R.restoreState doc update).2 then ((R.restoreState doc update).1, .invalid)
        else if R.text (R.restoreState doc update).1 = content then
          ((R.restoreState doc update).1, .valid)
        else (R.replaceText (R.restoreState doc update).1 content, .repaired)
    | none => ∃ outcome, outcome ≠ .valid ∧ outcome ≠ .repaired ∧
        tryRestoreStateSnapshot doc content (R.hashContent content) sidecar = (doc, outcome) := by
  match sidecar with
  | none => exact ⟨.disabled, by decide, by decide, rfl⟩
  | some none => exact ⟨.missing, by decide, by decide, rfl⟩
  | some (some .malformed) => exact ⟨.invalid, by decide, by decide, rfl⟩
  | some (some (.parsed file)) =>
      simp only [storedUpdate, tryRestoreStateSnapshot]
      cases file.usableUpdate (R.hashContent content) with
      | none => exact ⟨.stale, by decide, by decide, rfl⟩
      | some update => rfl

private theorem append_eq_self_iff {Value : Type*} (content rest : List Value) :
    content ++ rest = content ↔ rest = [] := by
  constructor
  · intro same
    exact List.append_right_eq_self.mp same
  · rintro rfl
    exact List.append_nil content

/-- The text after hydration is the content exactly when nothing was in the way
of the insertion. -/
theorem text_hydrateDoc_eq_iff (doc : R.Doc) (content : JsString)
    (sidecar : Option (Option Sidecar)) :
    R.text (hydrateDoc doc content sidecar).1 = content ↔ OpensCleanly doc content sidecar := by
  have outcome := tryRestoreStateSnapshot_storedUpdate doc content sidecar
  unfold OpensCleanly
  cases stored : storedUpdate (R.hashContent content) sidecar with
  | none =>
      rw [stored] at outcome
      obtain ⟨kind, notValid, notRepaired, restored⟩ := outcome
      simp only [hydrateDoc, restored, notValid, notRepaired, or_self, ↓reduceIte,
        Runtime.text_insert_zero]
      exact append_eq_self_iff content _
  | some update =>
      rw [stored] at outcome
      dsimp only at outcome ⊢
      by_cases threw : (R.restoreState doc update).2 = true
      · simp only [threw, ↓reduceIte] at outcome
        simp only [hydrateDoc, outcome, reduceCtorEq, or_self, ↓reduceIte,
          Runtime.text_insert_zero, threw, forall_const]
        exact append_eq_self_iff content _
      · simp only [threw] at outcome
        by_cases same : R.text (R.restoreState doc update).1 = content
        · simp [hydrateDoc, outcome, same, threw]
        · simp [hydrateDoc, outcome, same, threw]

/-- The document an attempt leaves behind, by what it found on disk: an attempt
that gets as far as the restore hydrates the document, whatever fails later. -/
def leftBehind (stateFilePath : Option JsString) (defaultContent : JsString) (doc : R.Doc)
    (input : OpenInput) : R.Doc :=
  match readFile defaultContent input, readSidecar stateFilePath input with
  | .ok content, .ok sidecar => (hydrateDoc doc content sidecar).1
  | _, _ => doc

/-- What one attempt does to the session object. -/
theorem loadFromFile_fields (session : Session R) (input : OpenInput) :
    (session.loadFromFile input).1.stateFilePath = session.stateFilePath ∧
      (session.loadFromFile input).1.defaultContent = session.defaultContent ∧
      (session.loadFromFile input).1.doc =
        leftBehind session.stateFilePath session.defaultContent session.doc input := by
  unfold loadFromFile leftBehind
  cases readFile session.defaultContent input with
  | error error => exact ⟨rfl, rfl, rfl⟩
  | ok content =>
      cases readSidecar session.stateFilePath input with
      | error error => exact ⟨rfl, rfl, rfl⟩
      | ok sidecar =>
          dsimp only
          split
          · exact ⟨rfl, rfl, rfl⟩
          · exact ⟨rfl, rfl, rfl⟩

/-- A failed attempt is a step of the session object. -/
theorem failedOpens_step {session next : Session R} {input : OpenInput}
    (stepped : (failedOpens R).step session input = some next) :
    next = (session.loadFromFile input).1 := by
  simp only [failedOpens] at stepped
  split at stepped
  · rename_i failed
    rw [failed]
    exact (Option.some.inj stepped).symm
  · cases stepped

/-- The document after failed attempts is what they leave behind, one after
another. -/
theorem doc_failedOpens {stateFilePath : Option JsString} {defaultContent : JsString}
    {attempts : List OpenInput} {source session : Session R}
    (configured : source.stateFilePath = stateFilePath ∧ source.defaultContent = defaultContent)
    (failed : (failedOpens R).Run (fun _ _ => True) source attempts session) :
    (session.stateFilePath = stateFilePath ∧ session.defaultContent = defaultContent) ∧
      session.doc = attempts.foldl (leftBehind stateFilePath defaultContent) source.doc := by
  have keep : ∀ (before : Session R) input next, True →
      (failedOpens R).step before input = some next →
      before.stateFilePath = stateFilePath ∧ before.defaultContent = defaultContent →
      next.stateFilePath = stateFilePath ∧ next.defaultContent = defaultContent := by
    intro before input next _ stepped same
    have fields := before.loadFromFile_fields input
    rw [failedOpens_step stepped, fields.1, fields.2.1]
    exact same
  have kept := failed.invariant keep configured
  have follow : ∀ (before : Session R) input next, True →
      (failedOpens R).step before input = some next →
      before.stateFilePath = stateFilePath ∧ before.defaultContent = defaultContent →
      next.doc = leftBehind stateFilePath defaultContent before.doc input := by
    intro before input next _ stepped same
    rw [failedOpens_step stepped, (before.loadFromFile_fields input).2.2, same.1, same.2]
  exact ⟨kept, failed.foldl_eq keep follow configured⟩

/-- **What an open shows.** After any number of failed attempts on one session
object, the text of a successful open is the content it read exactly when the
stored update of its sidecar applies without an exception or the document that
the attempts have left is empty where the content is inserted. -/
theorem text_eq_content_iff {filePath eventPath : JsString}
    {stateFilePath defaultContent : Option JsString} (attempts : List OpenInput)
    {session next : Session R} (input : OpenInput) {content : JsString}
    (sidecar : Option (Option Sidecar))
    (failed : (failedOpens R).Run (fun _ _ => True)
      (fresh R filePath eventPath stateFilePath defaultContent) attempts session)
    (loaded : session.loadFromFile input = (next, .ok content))
    (stored : readSidecar stateFilePath input = .ok sidecar) :
    R.text next.doc = content ↔
      OpensCleanly (attempts.foldl (leftBehind stateFilePath (defaultContent.getD []))
        R.emptyDoc) content sidecar := by
  have configured : (fresh R filePath eventPath stateFilePath defaultContent).stateFilePath =
      stateFilePath ∧ (fresh R filePath eventPath stateFilePath defaultContent).defaultContent =
        defaultContent.getD [] := ⟨rfl, rfl⟩
  obtain ⟨⟨sameState, sameDefault⟩, left⟩ := doc_failedOpens configured failed
  have fields := (session.loadFromFile_fields input).2.2
  have read : readFile session.defaultContent input = .ok content := by
    unfold loadFromFile at loaded
    cases found : readFile session.defaultContent input with
    | error error => simp [found] at loaded
    | ok value =>
        simp only [found, sameState, stored] at loaded
        split at loaded
        · simp at loaded
        · exact congrArg Except.ok (Except.ok.inj (Prod.mk.inj loaded).2)
  rw [loaded, sameState, leftBehind, read, stored] at fields
  rw [fields, left]
  exact text_hydrateDoc_eq_iff _ content sidecar

/-- The sidecar of a note is missing and an attempt to open it succeeds. -/
def missingSidecarOpen (content : JsString) : OpenInput where
  createIfMissing := false
  markdown := .found content
  createFails := false
  sidecar := .absent
  snapshotFails := false

/-- The sidecar of a note holds an update of the note's content. -/
def storedUpdateOpen (content : JsString) : OpenInput :=
  { missingSidecarOpen content with
    sidecar := .found (.parsed ⟨some documentSessionStateVersion, some content, some content⟩) }

/-- After an attempt that has left a text behind, a note with a stored update is opened and shows
the file. -/
theorem text_eq_content_restored :
    ∃ (session next : Session replicaRuntime),
      (failedOpens replicaRuntime).Run (fun _ _ => True)
        (fresh replicaRuntime [110] [110] (some [115]) none)
        [{ missingSidecarOpen [97] with snapshotFails := true }] session ∧
      replicaRuntime.text session.doc = [97] ∧
      session.loadFromFile (storedUpdateOpen [97, 98]) = (next, .ok [97, 98]) ∧
      replicaRuntime.text next.doc = [97, 98] := by
  have failed : (failedOpens replicaRuntime).Run (fun _ _ => True)
      (fresh replicaRuntime [110] [110] (some [115]) none)
      [{ missingSidecarOpen [97] with snapshotFails := true }] _ := .cons trivial rfl (.nil _)
  refine ⟨_, _, failed, by decide, rfl, ?_⟩
  refine Iff.mpr (text_eq_content_iff _ (storedUpdateOpen [97, 98]) _ failed rfl rfl) ?_
  exact fun threw => absurd threw (by decide)

/-- An attempt whose sidecar write fails leaves its text behind, and the next
open shows the content twice. -/
theorem text_ne_content_after_failed_snapshot :
    ∃ (session next : Session replicaRuntime),
      (failedOpens replicaRuntime).Run (fun _ _ => True)
        (fresh replicaRuntime [110] [110] (some [115]) none)
        [{ missingSidecarOpen [97] with snapshotFails := true }] session ∧
      session.loadFromFile (missingSidecarOpen [97]) = (next, .ok [97]) ∧
      replicaRuntime.text next.doc ≠ [97] := by
  refine ⟨_, _, .cons trivial rfl (.nil _), rfl, ?_⟩
  decide

end Session

namespace Replica

/-- The note `n.md` with its sidecar path, opened on a content. -/
def openedSite (content : JsString) : Site replicaRuntime where
  session := ((Session.fresh replicaRuntime [110] [110] (some [115]) none).hydrate content
    (some none)).finishOpen
  disk :=
    { files := fun path => if path = [110] then some content else none
      sidecars := fun _ => none }

end Replica

end Kb1Daemon
