import Kb1Daemon.Session.OwnWrites

/-! # Saving again after a failure

Updates and persist attempts that do not overlap, each step of which may fail.
An attempt that fails before its markdown write leaves the file and the recorded
hash as they were, and the next attempt starts over. One that fails between the
markdown write and the recording of its hash leaves a file the session does not
recognise: the next attempt reconciles from it and drops what was typed since
(`failed_snapshot_costs_edit`). Without such a late failure the document is the
result of all updates, and every attempt in which no step fails leaves the file
equal to the text and the failure flag cleared (`failed_save_costs_nothing`).
-/

namespace Kb1Daemon

variable {R : Runtime}

/-- Updates, edits and retries come between attempts, and nothing but the
session touches the file. -/
def Sequential (site : Site R) : SessionLabel R → Prop
  | .update _ _ | .edit _ _ | .retry => site.session.persist.isIdle = true
  | .persist _ => True
  | .startCheck | .check _ | .external _ => False

/-- The attempt fails after its markdown write has taken effect, and the content
written is not the one already recorded. -/
def FailsAfterWrite (site : Site R) : SessionLabel R → Prop
  | .persist io => site.session.FailsLate io
  | _ => False

/-- The document is the result of the updates alone, and at the end of an
attempt in which no step has failed the file holds the text and the failure flag
is clear. -/
structure SavesEdits (source : Site R) (labels : List (SessionLabel R)) (target : Site R) :
    Prop where
  doc : target.session.doc = labels.foldl SessionLabel.change source.session.doc
  saved : target.session.persist = .settle → target.session.loopFailure = false →
    target.disk.files target.session.filePath = some target.session.currentContent ∧
      target.session.persistFailed = false

namespace Session

/-- The content an attempt carries is the text, and after an attempt without
failure the file holds it. -/
def AttemptAgrees (session : Session R) (disk : Disk) : Prop :=
  match session.persist with
  | .idle => True
  | .readMarkdown _ content _ | .compareDisk content _ _ | .writeMarkdown _ content _
  | .writeSnapshot content _ _ | .recordHash content _ =>
      content = session.currentContent ∧ session.persistRequested = false
  | .loopTest | .settle =>
      session.persistRequested = false ∧ (session.loopFailure = false →
        disk.files session.filePath = some session.currentContent ∧
          session.persistFailed = false)
  | .awaitTransition | .reconcileSnapshot _ _ => False

/-- An attempt starts from the text. -/
theorem attemptAgrees_startMaterialize {session : Session R} {disk : Disk}
    (settled : session.pathTransition = false) (live : session.deleted = false) :
    session.startMaterialize.AttemptAgrees disk := by
  rw [startMaterialize_eq settled live]
  exact ⟨rfl, rfl⟩

/-- A request between attempts starts one. -/
theorem attemptAgrees_requestPersist {session : Session R} {disk : Disk}
    (settled : session.pathTransition = false) (live : session.deleted = false)
    (idle : session.persist.isIdle = true) : session.requestPersist.AttemptAgrees disk := by
  rw [Session.requestPersist, if_pos idle]
  exact attemptAgrees_startMaterialize settled live

/-- An update event between attempts starts one. -/
theorem attemptAgrees_handleDocumentUpdate {session : Session R} {disk : Disk}
    (settled : session.pathTransition = false) (live : session.deleted = false)
    (idle : session.persist.isIdle = true) (attribution : Option R.Attribution) :
    (session.handleDocumentUpdate attribution).AttemptAgrees disk := by
  rw [Session.handleDocumentUpdate, if_neg (by simp [live])]
  exact attemptAgrees_requestPersist settled live idle

/-- Between attempts nothing is claimed. -/
theorem attemptAgrees_of_idle {session : Session R} {disk : Disk}
    (idle : session.persist = .idle) : session.AttemptAgrees disk := by
  rw [AttemptAgrees, idle]
  trivial

theorem markPersistRecovered_cleared (session : Session R) :
    session.markPersistRecovered.persistFailed = false ∧
      session.markPersistRecovered.persistRequested = session.persistRequested := by
  unfold markPersistRecovered
  split
  · exact ⟨rfl, rfl⟩
  · rename_i clear
    exact ⟨by simpa using clear, rfl⟩

/-- A failed materialization ends the attempt as failed. -/
theorem attemptAgrees_failMaterialize {session : Session R} {disk : Disk}
    (quiet : session.persistRequested = false) : session.failMaterialize.AttemptAgrees disk :=
  ⟨quiet, fun clean => Bool.noConfusion clean⟩

theorem clearPendingWrite_requested (session : Session R) (content : JsString) :
    (session.clearPendingWrite content).persistRequested = session.persistRequested := by
  unfold clearPendingWrite
  split <;> rfl

/-- The steps of an attempt. -/
theorem AttemptAgrees.persistStep {session next : Session R} {disk nextDisk : Disk} {io : Io}
    (attempt : session.AttemptAgrees disk) (own : session.OwnDisk disk)
    (stepped : session.persistStep disk io = some (next, nextDisk)) :
    next.AttemptAgrees nextDisk := by
  have agrees := own.persist
  unfold PersistAgrees at agrees
  unfold AttemptAgrees at attempt
  unfold Session.persistStep at stepped
  cases task : session.persist with
  | idle => simp [task] at stepped
  | awaitTransition => simp [task] at attempt
  | reconcileSnapshot snapshot event => simp [task] at attempt
  | readMarkdown path content attribution =>
      simp only [task] at attempt stepped
      cases io with
      | ok =>
          obtain ⟨rfl, rfl⟩ := Prod.mk.inj (Option.some.inj stepped)
          exact attempt
      | fail =>
          obtain ⟨rfl, rfl⟩ := Prod.mk.inj (Option.some.inj stepped)
          exact attemptAgrees_failMaterialize attempt.2
      | failLate => simp at stepped
  | compareDisk content attribution diskContent =>
      simp only [task] at agrees attempt stepped
      obtain ⟨rfl, ⟨held, file, recorded⟩, _⟩ := agrees
      cases io with
      | ok =>
          obtain ⟨rfl, rfl⟩ := Prod.mk.inj (Option.some.inj stepped)
          rw [compareDisk_of_recorded content attribution recorded file]
          exact attempt
      | fail => simp at stepped
      | failLate => simp at stepped
  | writeMarkdown path content attribution =>
      simp only [task] at attempt stepped
      cases io with
      | ok =>
          obtain ⟨rfl, rfl⟩ := Prod.mk.inj (Option.some.inj stepped)
          exact attempt
      | fail | failLate =>
          obtain ⟨rfl, rfl⟩ := Prod.mk.inj (Option.some.inj stepped)
          apply attemptAgrees_failMaterialize
          rw [clearPendingWrite_requested]
          exact attempt.2
  | writeSnapshot content attribution snapshot =>
      simp only [task] at attempt stepped
      cases io with
      | ok =>
          obtain ⟨rfl, rfl⟩ := Prod.mk.inj (Option.some.inj stepped)
          exact attempt
      | fail | failLate =>
          dsimp only at stepped
          split at stepped
          · obtain ⟨rfl, rfl⟩ := Prod.mk.inj (Option.some.inj stepped)
            apply attemptAgrees_failMaterialize
            rw [clearPendingWrite_requested]
            exact attempt.2
          · simp at stepped
  | recordHash content attribution =>
      simp only [task] at agrees attempt stepped
      obtain ⟨file, pending⟩ := agrees
      obtain ⟨rfl, quiet⟩ := attempt
      cases io with
      | ok =>
          obtain ⟨rfl, rfl⟩ := Prod.mk.inj (Option.some.inj stepped)
          obtain ⟨_, _, _, rPath, _, _, _, rDoc, _⟩ :=
            (session.recordContent session.currentContent).markPersistRecovered_fields
          obtain ⟨cleared, requested⟩ :=
            (session.recordContent session.currentContent).markPersistRecovered_cleared
          rw [recordHash_of_pending attribution pending]
          refine ⟨requested.trans quiet, fun _ => ⟨?_, cleared⟩⟩
          change disk.files
              (session.recordContent session.currentContent).markPersistRecovered.filePath =
            some (R.text (session.recordContent session.currentContent).markPersistRecovered.doc)
          rw [rPath, rDoc]
          exact file
      | fail => simp at stepped
      | failLate => simp at stepped
  | loopTest =>
      simp only [task] at attempt stepped
      cases io with
      | ok =>
          obtain ⟨rfl, rfl⟩ := Prod.mk.inj (Option.some.inj stepped)
          rw [Session.loopTest, if_neg (by simp [attempt.1])]
          exact attempt
      | fail => simp at stepped
      | failLate => simp at stepped
  | settle =>
      simp only [task] at stepped
      cases io with
      | ok =>
          obtain ⟨rfl, rfl⟩ := Prod.mk.inj (Option.some.inj stepped)
          exact attemptAgrees_of_idle rfl
      | fail => simp at stepped
      | failLate => simp at stepped

end Session

/-- A sequential step keeps the check idle, the agreement with the disk and the
state of the attempt. -/
theorem sequential_step {site next : Site R} {label : SessionLabel R}
    (sequential : Sequential site label) (early : ¬ FailsAfterWrite site label)
    (stepped : (sessionMachine R).step site label = some next)
    (check : site.session.check = .idle) (own : site.session.OwnDisk site.disk)
    (attempt : site.session.AttemptAgrees site.disk) :
    next.session.check = .idle ∧ next.session.AttemptAgrees next.disk ∧
      Undisturbed site label := by
  have undisturbed : Undisturbed site label := by
    cases label with
    | persist io => exact ⟨early, by simp [Session.Overtakes, check]⟩
    | external content => exact sequential
    | _ => trivial
  simp only [sessionMachine] at stepped
  cases label with
  | update update attribution =>
      dsimp only at stepped
      split at stepped
      · obtain rfl := Option.some.inj stepped
        have idle := PersistTask.isIdle_iff.mp sequential
        have frame := Session.frame_applyUpdate site.session update attribution
        refine ⟨(congrArg Session.Frame.check frame).trans check, ?_, undisturbed⟩
        dsimp only [Session.applyUpdate]
        split
        · apply Session.attemptAgrees_handleDocumentUpdate
          · exact own.settled
          · exact own.live
          · exact sequential
        · exact Session.attemptAgrees_of_idle idle
      · cases stepped
  | edit content attribution =>
      dsimp only at stepped
      split at stepped
      · obtain rfl := Option.some.inj stepped
        have idle := PersistTask.isIdle_iff.mp sequential
        have frame := Session.frame_applyContent site.session content attribution
        refine ⟨(congrArg Session.Frame.check frame).trans check, ?_, undisturbed⟩
        dsimp only [Session.applyContent]
        split
        · exact Session.attemptAgrees_of_idle idle
        · apply Session.attemptAgrees_handleDocumentUpdate
          · exact own.settled
          · exact own.live
          · exact sequential
      · cases stepped
  | retry =>
      dsimp only at stepped
      split at stepped
      · obtain rfl := Option.some.inj stepped
        exact ⟨(congrArg Session.Frame.check (Session.frame_requestPersist _)).trans check,
          Session.attemptAgrees_requestPersist own.settled own.live sequential, undisturbed⟩
      · cases stepped
  | persist io =>
      obtain ⟨⟨session, disk⟩, moved, rfl⟩ := Option.map_eq_some_iff.mp stepped
      have frame := Session.frame_persistStep moved
      exact ⟨(congrArg Session.Frame.check frame).trans check, attempt.persistStep own moved,
        undisturbed⟩
  | startCheck => exact sequential.elim
  | check io => exact sequential.elim
  | external content => exact sequential.elim

/-- What sequential steps without a late failure keep. -/
structure Site.Attempting (site : Site R) : Prop where
  own : site.session.OwnDisk site.disk
  check : site.session.check = .idle
  attempt : site.session.AttemptAgrees site.disk

/-- **A failed save costs nothing.** From a clean session, in every sequence of
updates and persist attempts none of which fails after its markdown write, the
document is the result of the updates, and every attempt without a failure
leaves the file equal to the text and the failure flag clear. -/
theorem failed_save_costs_nothing {source target : Site R} {labels : List (SessionLabel R)}
    (clean : source.Clean)
    (run : (sessionMachine R).Run
      (fun site label => Sequential site label ∧ ¬ FailsAfterWrite site label) source labels
      target) :
    SavesEdits source labels target := by
  have keep : ∀ (site : Site R) label next,
      Sequential site label ∧ ¬ FailsAfterWrite site label →
      (sessionMachine R).step site label = some next → site.Attempting → next.Attempting := by
    rintro site label next ⟨sequential, early⟩ stepped ⟨own, check, attempt⟩
    obtain ⟨nextCheck, nextAttempt, undisturbed⟩ :=
      sequential_step sequential early stepped check own attempt
    exact ⟨(sessionMachine_step_ownDisk undisturbed stepped own).1, nextCheck, nextAttempt⟩
  have follow : ∀ (site : Site R) label next,
      Sequential site label ∧ ¬ FailsAfterWrite site label →
      (sessionMachine R).step site label = some next → site.Attempting →
      next.session.doc = SessionLabel.change site.session.doc label := by
    rintro site label next ⟨sequential, early⟩ stepped ⟨own, check, attempt⟩
    obtain ⟨_, _, undisturbed⟩ := sequential_step sequential early stepped check own attempt
    exact (sessionMachine_step_ownDisk undisturbed stepped own).2.1
  have initial : source.Attempting :=
    ⟨clean.own, clean.check, Session.attemptAgrees_of_idle clean.persist⟩
  have final := run.invariant keep initial
  have doc := run.foldl_eq keep follow initial
  refine ⟨doc, fun settling unfailed => ?_⟩
  have attempt := final.attempt
  rw [Session.AttemptAgrees, settling] at attempt
  exact attempt.2 unfailed

/-- The sidecar write of the first attempt fails after the markdown write; the
next attempt takes the session's own file for an external change and the second
update is gone. -/
theorem failed_snapshot_costs_edit :
    ∃ (labels : List (SessionLabel replicaRuntime)) (target : Site replicaRuntime),
      (Replica.openedSite [97]).Clean ∧
      (sessionMachine replicaRuntime).Run Sequential (Replica.openedSite [97]) labels target ∧
      ¬ SavesEdits (Replica.openedSite [97]) labels target := by
  have run : (sessionMachine replicaRuntime).Run Sequential (Replica.openedSite [97])
      [.update (.insert 1 1 [98]) none, .persist .ok, .persist .ok, .persist .ok, .persist .fail,
        .persist .ok, .persist .ok, .update (.insert 1 2 [99]) none, .persist .ok, .persist .ok] _ :=
    .cons rfl rfl (.cons trivial rfl (.cons trivial rfl (.cons trivial rfl (.cons trivial rfl
      (.cons trivial rfl (.cons trivial rfl (.cons rfl rfl (.cons trivial rfl (.cons trivial rfl
        (.nil _))))))))))
  refine ⟨_, _, Replica.openedSite_clean [97], run, ?_⟩
  intro kept
  have reverted := congrArg replicaRuntime.text kept.doc
  revert reverted
  decide

/-- A failed read of the file, a second update and an attempt without a
failure. -/
theorem failed_save_costs_nothing_read :
    ∃ target, (sessionMachine replicaRuntime).Run
        (fun site label => Sequential site label ∧ ¬ FailsAfterWrite site label)
        (Replica.openedSite [97]) [.update (.insert 1 1 [98]) none, .persist .fail, .persist .ok,
          .persist .ok, .update (.insert 1 2 [99]) none, .persist .ok, .persist .ok, .persist .ok,
          .persist .ok, .persist .ok, .persist .ok] target ∧
      SavesEdits (Replica.openedSite [97]) [.update (.insert 1 1 [98]) none, .persist .fail,
        .persist .ok, .persist .ok, .update (.insert 1 2 [99]) none, .persist .ok, .persist .ok,
        .persist .ok, .persist .ok, .persist .ok, .persist .ok] target := by
  have run : (sessionMachine replicaRuntime).Run
      (fun site label => Sequential site label ∧ ¬ FailsAfterWrite site label)
      (Replica.openedSite [97]) [.update (.insert 1 1 [98]) none, .persist .fail, .persist .ok,
        .persist .ok, .update (.insert 1 2 [99]) none, .persist .ok, .persist .ok, .persist .ok,
        .persist .ok, .persist .ok, .persist .ok] _ :=
    .cons ⟨rfl, id⟩ rfl (.cons ⟨trivial, id⟩ rfl (.cons ⟨trivial, id⟩ rfl
      (.cons ⟨trivial, id⟩ rfl (.cons ⟨rfl, id⟩ rfl (.cons ⟨trivial, id⟩ rfl
        (.cons ⟨trivial, id⟩ rfl (.cons ⟨trivial, id⟩ rfl (.cons ⟨trivial, id⟩ rfl
          (.cons ⟨trivial, id⟩ rfl (.cons ⟨trivial, id⟩ rfl (.nil _)))))))))))
  exact ⟨_, run, failed_save_costs_nothing (Replica.openedSite_clean [97]) run⟩

end Kb1Daemon
