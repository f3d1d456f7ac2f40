import Kb1Daemon.Session.Load
import Kb1Daemon.Session.OwnDisk

/-! # The echo of a session's own writes

The watcher and the poll timer check the file while the session itself writes
it. A check compares what it has read with the recorded and the pending hash at
the time of the comparison, and a persist replaces both in between. As long as
no persist records another hash while a check holds a content it has not
compared, a session that is alone with its file never reconciles, warns or marks
itself deleted (`own_writes_kept`). A check that is overtaken takes the older
content for an external change and reverts the document
(`own_writes_reverted_by_overtaken_check`).
-/

namespace Kb1Daemon

variable {R : Runtime}

/-- A session after its open, or at rest: nothing is running, requested or
failed, and the file holds the recorded content. -/
structure Site.Clean (site : Site R) : Prop where
  own : site.session.OwnDisk site.disk
  persist : site.session.persist = .idle
  check : site.session.check = .idle
  requested : site.session.persistRequested = false
  recovered : site.session.persistFailed = false
  error : site.session.persistFailureError = none

/-- A session object that has not been opened. -/
structure Session.Cold (session : Session R) : Prop where
  closed : session.opened = false
  live : session.deleted = false
  settled : session.pathTransition = false
  unwatched : session.watching = false
  clear : session.pendingWriteHash = none
  persist : session.persist = .idle
  check : session.check = .idle
  requested : session.persistRequested = false
  recovered : session.persistFailed = false
  error : session.persistFailureError = none

theorem Session.cold_fresh (filePath eventPath : JsString)
    (stateFilePath defaultContent : Option JsString) :
    (Session.fresh R filePath eventPath stateFilePath defaultContent).Cold :=
  ⟨rfl, rfl, rfl, rfl, rfl, rfl, rfl, rfl, rfl, rfl⟩

/-- A successful open of a file that holds the content read gives a clean
session. -/
theorem Site.clean_of_loadFromFile {cold session : Session R} {content : JsString}
    {input : OpenInput} {disk : Disk} (closed : cold.Cold)
    (loaded : cold.loadFromFile input = (session, .ok content))
    (file : disk.files cold.filePath = some content) : Site.Clean ⟨session, disk⟩ := by
  unfold Session.loadFromFile at loaded
  split at loaded
  · simp at loaded
  · split at loaded
    · simp at loaded
    · split at loaded
      · simp at loaded
      · simp only [Prod.mk.injEq, Except.ok.injEq] at loaded
        obtain ⟨rfl, rfl⟩ := loaded
        obtain ⟨_, live, settled, _, clear, persist, check, requested, recovered, error⟩ := closed
        refine ⟨⟨rfl, live, settled, ?_, ?_⟩, persist, check, requested, recovered, error⟩
        · change Session.PersistAgrees _ disk
          unfold Session.PersistAgrees
          dsimp only [Session.finishOpen, Session.hydrate, Session.recordContent]
          rw [persist]
          exact ⟨⟨_, file, rfl⟩, clear⟩
        · unfold Session.CheckAgrees
          dsimp only [Session.finishOpen, Session.hydrate, Session.recordContent]
          rw [check]
          trivial

/-- A step of the session or of a client in which no I/O fails. -/
def SessionLabel.Faultless : SessionLabel R → Prop
  | .persist io | .check io => io = .ok
  | .external _ => False
  | _ => True

instance (label : SessionLabel R) : Decidable label.Faultless := by
  unfold SessionLabel.Faultless
  cases label <;> infer_instance

/-- The persist loop records a hash while a check holds a content with another
one. -/
def OvertakesCheck (site : Site R) : SessionLabel R → Prop
  | .persist io => site.session.Overtakes io
  | _ => False

instance (session : Session R) (io : Io) : Decidable (session.Overtakes io) := by
  unfold Session.Overtakes
  split <;> infer_instance

instance (site : Site R) (label : SessionLabel R) : Decidable (OvertakesCheck site label) := by
  unfold OvertakesCheck
  cases label <;> infer_instance

/-- Along the run only the updates and edits have changed the document, and the
session has neither warned of an external change nor marked itself deleted. -/
structure KeepsOwnWrites (source : Site R) (labels : List (SessionLabel R)) (target : Site R) :
    Prop where
  doc : target.session.doc = labels.foldl SessionLabel.change source.session.doc
  warnings : target.session.warnings = source.session.warnings
  live : target.session.deleted = false

/-- A faultless step that overtakes no check is undisturbed. -/
theorem undisturbed_of_faultless {site : Site R} {label : SessionLabel R}
    (faultless : label.Faultless) (order : ¬ OvertakesCheck site label) :
    Undisturbed site label := by
  cases label with
  | persist io =>
      refine ⟨?_, order⟩
      cases faultless
      unfold Session.FailsLate
      cases site.session.persist <;> simp
  | external content => exact faultless
  | _ => trivial

/-- **Own writes are not external changes.** In every run of a session alone
with its file, without I/O failures, in which no persist records another hash
while a check holds a content it has not compared, the document is the result of
the updates and edits alone, and the session neither warns of an external change
nor marks itself deleted. -/
theorem own_writes_kept {source target : Site R} {labels : List (SessionLabel R)}
    (clean : source.Clean)
    (run : (sessionMachine R).Run (fun site label => label.Faultless ∧ ¬ OvertakesCheck site label)
      source labels target) :
    KeepsOwnWrites source labels target := by
  have undisturbed : (sessionMachine R).Run Undisturbed source labels target :=
    run.mono fun _ _ allowed => undisturbed_of_faultless allowed.1 allowed.2
  have keep : ∀ (site : Site R) label next, Undisturbed site label →
      (sessionMachine R).step site label = some next →
      site.session.OwnDisk site.disk ∧ site.session.warnings = source.session.warnings →
      next.session.OwnDisk next.disk ∧ next.session.warnings = source.session.warnings := by
    intro site label next allowed stepped held
    have kept := sessionMachine_step_ownDisk allowed stepped held.1
    exact ⟨kept.1, kept.2.2.trans held.2⟩
  have follow : ∀ (site : Site R) label next, Undisturbed site label →
      (sessionMachine R).step site label = some next →
      site.session.OwnDisk site.disk ∧ site.session.warnings = source.session.warnings →
      next.session.doc = SessionLabel.change site.session.doc label :=
    fun site label next allowed stepped held =>
      (sessionMachine_step_ownDisk allowed stepped held.1).2.1
  have initial : source.session.OwnDisk source.disk ∧
      source.session.warnings = source.session.warnings := ⟨clean.own, rfl⟩
  have final := undisturbed.invariant keep initial
  have doc := undisturbed.foldl_eq keep follow initial
  exact ⟨doc, final.2, final.1.live⟩

namespace Replica

theorem openedSite_clean (content : JsString) : (openedSite content).Clean :=
  ⟨⟨rfl, rfl, rfl, ⟨⟨content, rfl, rfl⟩, rfl⟩, trivial⟩, rfl, rfl, rfl, rfl, rfl⟩

end Replica

/-- A check reads the file, a persist of a new text runs to its end, and the
check then takes the old content for an external change: the typed text is
gone. -/
theorem own_writes_reverted_by_overtaken_check :
    ∃ (labels : List (SessionLabel replicaRuntime)) (target : Site replicaRuntime),
      (Replica.openedSite [97]).Clean ∧
      (sessionMachine replicaRuntime).Run (fun _ label => label.Faultless)
        (Replica.openedSite [97]) labels target ∧
      ¬ KeepsOwnWrites (Replica.openedSite [97]) labels target := by
  refine ⟨[.startCheck, .check .ok, .update (.insert 1 1 [98]) none, .persist .ok, .persist .ok,
    .persist .ok, .persist .ok, .persist .ok, .check .ok], _, Replica.openedSite_clean [97],
    Machine.evaluate_sound rfl, ?_⟩
  intro kept
  have reverted := congrArg replicaRuntime.text kept.doc
  revert reverted
  decide

/-- A check that runs to its end before the persist does not disturb it. -/
theorem own_writes_kept_checked :
    ∃ target, (sessionMachine replicaRuntime).Run
        (fun site label => label.Faultless ∧ ¬ OvertakesCheck site label)
        (Replica.openedSite [97]) [.startCheck, .check .ok, .check .ok,
          .update (.insert 1 1 [98]) none, .persist .ok] target ∧
      KeepsOwnWrites (Replica.openedSite [97]) [.startCheck, .check .ok, .check .ok,
        .update (.insert 1 1 [98]) none, .persist .ok] target := by
  have run : (sessionMachine replicaRuntime).Run
      (fun site label => label.Faultless ∧ ¬ OvertakesCheck site label)
      (Replica.openedSite [97]) [.startCheck, .check .ok, .check .ok,
        .update (.insert 1 1 [98]) none, .persist .ok] _ :=
    .cons ⟨trivial, id⟩ rfl (.cons ⟨rfl, id⟩ rfl (.cons ⟨rfl, id⟩ rfl (.cons ⟨trivial, id⟩ rfl
      (.cons ⟨rfl, id⟩ rfl (.nil _)))))
  exact ⟨_, run, own_writes_kept (Replica.openedSite_clean [97]) run⟩

end Kb1Daemon
