import Kb1Daemon.Session.Calls
import Kb1Daemon.Session.Saving

/-! # What a session reports of its saves

The persist loop keeps a failure in three places: the local variable that rejects its
promise, the error a flush looks at, and the event a new socket is shown. The account
of a session holds these flags with the outcomes of the settled promises and the number
of `content-persisted` events. Every step changes the account in one of a few ways,
which depend on how a materialization or a reconcile ends in it.
-/

namespace Kb1Daemon

/-- How a materialization, or a check that reconciles, ends. -/
inductive Ending where
  /-- Both files are written. -/
  | wrote
  /-- The document has taken over the disk content. -/
  | reconciled
  /-- The file is missing. -/
  | removed
  /-- The session was deleted before. -/
  | skipped
  | failed
  deriving DecidableEq, Repr

/-- What a session reports of its saves. -/
structure Account where
  /-- A persist promise is pending. -/
  running : Bool
  outcomes : List Bool
  loopFailure : Bool
  persistFailed : Bool
  /-- A flush requests a persist again. -/
  error : Bool
  /-- The persist-failure event is active. -/
  active : Bool
  deleted : Bool
  /-- The number of `content-persisted` events. -/
  saves : Nat

namespace Account

/-- A persist is requested. -/
def request (account : Account) : Account :=
  if account.running then account
  else { account with running := true, loopFailure := false }

/-- A materialization fails. -/
def fail (account : Account) : Account :=
  { account with loopFailure := true, persistFailed := true, error := true, active := true }

/-- A recorded failure is cleared. -/
def recover (account : Account) : Account :=
  if account.persistFailed then
    { account with persistFailed := false, error := false, active := false }
  else account

/-- A content is persisted. -/
def save (account : Account) : Account :=
  { account.recover with saves := account.recover.saves + 1 }

/-- The file is found missing. -/
def remove (account : Account) : Account :=
  if account.deleted then account else { account with deleted := true, active := false }

/-- The persist promise is settled. -/
def settle (account : Account) : Account :=
  { account with running := false, outcomes := account.outcomes ++ [account.loopFailure] }

/-- What an ending makes of the account. -/
def close (account : Account) : Ending → Account
  | .wrote => account.save
  | .reconciled | .skipped => account
  | .removed => account.remove
  | .failed => account.fail

/-- A request changes nothing while the loop runs. -/
theorem request_of_running {account : Account} (running : account.running = true) :
    account.request = account := by
  rw [request, if_pos running]

/-- A request starts an idle loop. -/
theorem request_of_idle {account : Account} (idle : account.running = false) :
    account.request = { account with running := true, loopFailure := false } := by
  rw [request, if_neg (by rw [idle]; decide)]

@[simp] theorem running_request (account : Account) : account.request.running = true := by
  cases runs : account.running with
  | true => rw [request_of_running runs, runs]
  | false => rw [request_of_idle runs]

@[simp] theorem request_request (account : Account) : account.request.request = account.request := by
  cases runs : account.running with
  | true => rw [request_of_running runs, request_of_running runs]
  | false => rw [request_of_idle runs, request_of_running rfl]

end Account

namespace Session

variable {R : Runtime}

/-- What the session reports of its saves. -/
def account (session : Session R) : Account where
  running := !session.persist.isIdle
  outcomes := session.persistOutcomes
  loopFailure := session.loopFailure
  persistFailed := session.persistFailed
  error := session.persistFailureError.isSome
  active := session.activePersistFailureEvent.isSome
  deleted := session.deleted
  saves := session.events.countP fun event => event.kind = .contentPersisted

/-- How the running materialization ends in the next step of the loop, if it does. -/
def ending (session : Session R) (io : Io) : Option Ending :=
  match session.persist, io with
  | .awaitTransition, .ok => if session.deleted then some .skipped else none
  | .readMarkdown _ _ _, .fail => some .failed
  | .compareDisk _ _ none, .ok => if session.lastWrittenHash.isSome then some .removed else none
  | .writeMarkdown _ _ _, .fail | .writeMarkdown _ _ _, .failLate => some .failed
  | .writeSnapshot _ _ _, .fail | .writeSnapshot _ _ _, .failLate => some .failed
  | .recordHash _ _, .ok => some .wrote
  | .reconcileSnapshot _ _, .ok => some .reconciled
  | .reconcileSnapshot _ _, .fail | .reconcileSnapshot _ _, .failLate => some .failed
  | .loopTest, .ok =>
      if session.persistRequested ∧ ¬ session.pathTransition ∧ session.deleted then some .skipped
      else none
  | _, _ => none

/-- How a running check ends in its next step, if it reconciles. -/
def checkEnding (session : Session R) (io : Io) : Option Ending :=
  match session.check, io with
  | .compareDisk none, .ok => some .removed
  | .reconcileSnapshot _ _, .ok => some .reconciled
  | _, _ => none

/-- The promise of the loop is cleared in its next step. -/
def settles (session : Session R) : Bool :=
  match session.persist with
  | .settle => true
  | _ => false

/-- A first materialization that finds the session deleted ends at once. -/
def startEnding (session next : Session R) : Option Ending :=
  match session.persist, next.persist with
  | .idle, .loopTest => some .skipped
  | _, _ => none

/-- Entering the loop body runs the loop. -/
theorem account_startMaterialize (session : Session R) :
    session.startMaterialize.account = { session.account with running := true } := by
  unfold startMaterialize captureContent
  split
  · rfl
  · split <;> rfl

theorem account_requestPersist (session : Session R) :
    session.requestPersist.account = session.account.request := by
  unfold requestPersist
  split
  · rename_i idle
    rw [account_startMaterialize, Account.request_of_idle (by rw [account, idle]; rfl)]
    rfl
  · rename_i busy
    have idle := Bool.eq_false_iff.mpr busy
    rw [Account.request_of_running (by rw [account, idle]; rfl)]
    rfl

theorem account_handleDocumentUpdate {session : Session R} (live : session.deleted = false)
    (attribution : Option R.Attribution) :
    (session.handleDocumentUpdate attribution).account = session.account.request := by
  unfold handleDocumentUpdate
  rw [if_neg (by rw [live]; decide), account_requestPersist]
  rfl

theorem account_applyUpdate {session : Session R} (live : session.deleted = false)
    (update : R.Update) (attribution : Option R.Attribution) :
    (session.applyUpdate update attribution).account =
      if R.firesUpdate session.doc update then session.account.request else session.account := by
  unfold applyUpdate
  split
  · exact @account_handleDocumentUpdate R
      { session with doc := R.applyUpdate session.doc update } live attribution
  · rfl

theorem account_applyContent {session : Session R} (live : session.deleted = false)
    (content : JsString) (attribution : Option R.Attribution) :
    (session.applyContent content attribution).account =
      if session.currentContent ≠ content then session.account.request
      else session.account := by
  unfold applyContent
  by_cases same : session.currentContent = content
  · rw [if_pos same, if_neg (not_not_intro same)]
  · rw [if_neg same, if_pos same]
    exact @account_handleDocumentUpdate R
      { session with doc := R.applyDelta session.doc content } live attribution

/-- A flush leaves the session as it is, or retries after a failure. -/
theorem flush_retries (session : Session R) :
    session.flush.1 = session ∨
      session.account.error = true ∧ session.flush.1 = session.requestPersist := by
  unfold flush
  split
  · unfold retryFlush
    split
    · rename_i failed
      exact .inr ⟨failed, rfl⟩
    · exact .inl rfl
  · exact .inl rfl

theorem flushStep_retries {session next : Session R} {task nextTask : FlushTask}
    (stepped : session.flushStep task = some (next, nextTask)) :
    next = session ∨ session.account.error = true ∧ next = session.requestPersist := by
  unfold flushStep at stepped
  split at stepped
  · split at stepped
    · cases stepped
    · cases stepped
      exact .inl rfl
    · unfold retryFlush at stepped
      split at stepped
      · rename_i failed
        cases stepped
        exact .inr ⟨failed, rfl⟩
      · cases stepped
        exact .inl rfl
  · split at stepped
    · cases stepped
    · cases stepped
      exact .inl rfl
    · cases stepped
      exact .inl rfl
  · cases stepped
  · cases stepped

theorem account_emitEvent (session : Session R) {event : SessionEvent R}
    (kind : event.kind ≠ .contentPersisted) :
    (session.emitEvent event).account = session.account := by
  simp [account, emitEvent, List.countP_append, kind]

theorem account_emitEvent_persisted (session : Session R) {event : SessionEvent R}
    (kind : event.kind = .contentPersisted) :
    (session.emitEvent event).account =
      { session.account with saves := session.account.saves + 1 } := by
  simp [account, emitEvent, List.countP_append, kind]

/-- A deletion removes the account's session. -/
theorem account_markDeleted (session : Session R) :
    session.markDeleted.account = session.account.remove := by
  have shown : session.account.deleted = session.deleted := rfl
  unfold markDeleted Account.remove
  rw [shown]
  split
  · rfl
  · rw [account_emitEvent]
    · rfl
    · exact EventKind.noConfusion

/-- A failed save is noted. -/
theorem account_failMaterialize (session : Session R) (running : session.persist.isIdle = false) :
    session.failMaterialize.account = session.account.fail := by
  unfold failMaterialize markPersistFailed
  rw [account_emitEvent]
  · unfold account Account.fail
    rw [running]
    rfl
  · exact EventKind.noConfusion

/-- A recovery is noted. -/
theorem account_markPersistRecovered (session : Session R) :
    session.markPersistRecovered.account = session.account.recover := by
  have shown : session.account.persistFailed = session.persistFailed := rfl
  unfold markPersistRecovered Account.recover
  rw [shown]
  split
  · rw [account_emitEvent]
    · rfl
    · exact EventKind.noConfusion
  · rfl

theorem account_clearPendingWrite (session : Session R) (content : JsString) :
    (session.clearPendingWrite content).account = session.account := by
  unfold clearPendingWrite
  split <;> rfl

theorem account_emitReconcile (session : Session R) (event : Option ExternalEvent) :
    (session.emitReconcile event).account = session.account := by
  unfold emitReconcile
  split
  · rfl
  · rename_i external
    apply account_emitEvent
    cases external <;> exact EventKind.noConfusion

/-- The account of a session whose loop is given another task. -/
theorem account_withTask {session : Session R} (running : session.persist.isIdle = false)
    {next : Session R} {account : Account} (same : next.account = account)
    (loops : account.running = session.account.running) {task : PersistTask R}
    (busy : task.isIdle = false) : { next with persist := task }.account = account := by
  have shown : { next with persist := task }.account =
      { next.account with running := !task.isIdle } := rfl
  have runs : account.running = true := by
    rw [loops]
    simp [Session.account, running]
  rw [shown, same, busy]
  cases account
  cases runs
  rfl

theorem running_recover (account : Account) : account.recover.running = account.running := by
  unfold Account.recover
  split <;> rfl

/-- A recorded content counts as a save. -/
theorem account_recordHash {session : Session R} (running : session.persist.isIdle = false)
    (content : JsString) (attribution : Option R.Attribution) :
    (session.recordHash content attribution).account = session.account.save := by
  apply account_withTask running
  · rw [account_clearPendingWrite, account_emitEvent_persisted _ rfl,
      account_markPersistRecovered]
    rfl
  · exact running_recover session.account
  · rfl

theorem account_reconcileExternalContent (session : Session R) (content : JsString) :
    (session.reconcileExternalContent (some content)).1.account = session.account ∧
      (session.reconcileExternalContent (some content)).2.isSome = true := by
  dsimp only [reconcileExternalContent]
  split <;> exact ⟨rfl, rfl⟩

theorem account_compareDisk {session : Session R} {content : JsString}
    {attribution : Option R.Attribution} {diskContent : Option JsString}
    (task : session.persist = .compareDisk content attribution diskContent) :
    (session.compareDisk content attribution diskContent).account =
      ((session.ending .ok).map session.account.close).getD session.account := by
  have running : session.persist.isIdle = false := by rw [task]; rfl
  unfold compareDisk ending
  rw [task]
  cases hash : session.lastWrittenHash with
  | none =>
      cases diskContent <;> exact account_withTask running rfl rfl rfl
  | some expected =>
      cases diskContent with
      | none =>
          have removed := account_markDeleted (session.warn expected none)
          apply account_withTask running removed
          · unfold Account.remove
            split <;> rfl
          · rfl
      | some diskText =>
          dsimp only
          split
          · have reconciled := account_reconcileExternalContent
              (session.warn expected (some (R.hashContent diskText))) diskText
            split
            · rename_i result same
              rw [show (some diskText).map R.hashContent = some (R.hashContent diskText)
                from rfl] at same
              rw [same] at reconciled
              exact absurd reconciled.2 nofun
            · rename_i result event same
              rw [show (some diskText).map R.hashContent = some (R.hashContent diskText)
                from rfl] at same
              rw [same] at reconciled
              exact account_withTask running reconciled.1 rfl rfl
          · exact account_withTask running rfl rfl rfl

/-- **Account of the loop.** What a step of the persist loop makes of the account. -/
theorem account_persistStep {session next : Session R} {disk nextDisk : Disk} {io : Io}
    (stepped : session.persistStep disk io = some (next, nextDisk)) :
    next.account =
      match session.ending io with
      | some ending => session.account.close ending
      | none => if session.settles then session.account.settle else session.account := by
  have failed : ∀ content : JsString, session.persist.isIdle = false →
      (session.clearPendingWrite content).failMaterialize.account = session.account.fail := by
    intro content busy
    have same := account_clearPendingWrite session content
    have idle : (session.clearPendingWrite content).persist.isIdle = false := by
      have running := congrArg Account.running same
      exact (Bool.not_inj running).trans busy
    rw [account_failMaterialize _ idle, same]
  unfold persistStep at stepped
  split at stepped
  case h_2 task =>
    split at stepped
    · cases stepped
    · cases stepped
      have running : session.persist.isIdle = false := by rw [task]; rfl
      unfold captureContent ending settles
      rw [task]
      by_cases deleted : session.deleted = true
      · rw [if_pos deleted, if_pos deleted]
        exact account_withTask running rfl rfl rfl
      · rw [if_neg deleted, if_neg deleted]
        exact @account_withTask R session running { session with pendingPersistAttribution := none }
          _ rfl rfl _ rfl
  case h_5 task =>
    cases stepped
    rw [account_compareDisk task]
    have rests : session.settles = false := by rw [settles, task]
    rw [rests]
    cases session.ending .ok <;> rfl
  case h_12 task =>
    cases stepped
    have running : session.persist.isIdle = false := by rw [task]; rfl
    unfold ending
    rw [task]
    exact account_recordHash running _ _
  case h_16 task =>
    cases stepped
    have running : session.persist.isIdle = false := by rw [task]; rfl
    have runs : session.account.running = true := by
      rw [account, running]
      rfl
    have same : session.loopTest.account = session.account := by
      unfold loopTest
      split
      · rw [account_startMaterialize, ← runs]
      · exact account_withTask running rfl rfl rfl
    rw [same]
    unfold ending settles
    rw [task]
    dsimp only
    split <;> rename_i found
    · split at found
      · cases found
        rfl
      · cases found
    · rfl
  case h_1 => cases stepped
  case h_18 => cases stepped
  all_goals
    rename_i task
    have running : session.persist.isIdle = false := by
      rw [task]
      rfl
    unfold ending settles
    rw [task]
  all_goals try split at stepped
  all_goals cases stepped
  all_goals first
    | rfl
    | exact account_withTask running rfl rfl rfl
    | exact account_failMaterialize session running
    | exact failed _ running
    | exact account_withTask running (account_emitReconcile session _) rfl rfl

theorem account_checkStep {session next : Session R} {disk nextDisk : Disk} {io : Io}
    (stepped : session.checkStep disk io = some (next, nextDisk)) :
    next.account = ((session.checkEnding io).map session.account.close).getD session.account := by
  unfold checkStep at stepped
  split at stepped
  case h_3 diskContent task =>
    cases stepped
    unfold checkEnding compareCheck
    rw [task]
    cases diskContent with
    | none => exact account_markDeleted session
    | some content =>
        dsimp only
        split
        · rfl
        · have reconciled := account_reconcileExternalContent session content
          split
          all_goals
            rename_i same
            rw [same] at reconciled
            exact reconciled.1
  all_goals
    rename_i task
  all_goals try split at stepped
  all_goals cases stepped
  all_goals
    unfold checkEnding
    rw [task]
  all_goals first
    | rfl
    | exact account_emitReconcile session _

end Session

/-- What a step does that the books of the saves take down. -/
structure SaveEntry where
  /-- An update is applied. -/
  fires : Bool
  /-- A materialization captures the text. -/
  captures : Bool
  /-- How a materialization ends. -/
  ending : Option Ending
  /-- How a check ends that reconciles. -/
  checked : Option Ending

/-- The books of the saves. -/
structure SaveBooks where
  /-- How many updates have been applied. -/
  applied : Nat
  /-- How many of these the text last captured can hold. -/
  captured : Nat
  /-- How many of these the text last persisted can hold. -/
  persisted : Nat
  /-- The last materialization failed. -/
  lastFailed : Bool
  /-- The running loop has persisted a text. -/
  loopSaved : Bool
  /-- The last materialization failed, and nothing was written or reconciled since. -/
  failing : Bool
  /-- Whether the last materialization of each settled promise failed. -/
  verdicts : List Bool

namespace SaveBooks

/-- The books at the start. -/
def start (outcomes : List Bool) : SaveBooks := ⟨0, 0, 0, false, false, false, outcomes⟩

/-- Take down a step. -/
def enter (books : SaveBooks) (before after : Account) (entry : SaveEntry) : SaveBooks where
  applied := if entry.fires then books.applied + 1 else books.applied
  captured :=
    if entry.captures then (if entry.fires then books.applied + 1 else books.applied)
    else books.captured
  persisted := if entry.ending = some .wrote then books.captured else books.persisted
  lastFailed :=
    match entry.ending with
    | some ending => ending = .failed
    | none => books.lastFailed
  loopSaved :=
    if entry.ending = some .wrote then true
    else books.loopSaved && before.running
  failing :=
    match entry.ending with
    | some ending => ending = .failed
    | none => books.failing && entry.checked.isNone
  verdicts :=
    if before.running && !after.running then books.verdicts ++ [books.lastFailed]
    else books.verdicts

end SaveBooks

/-- The step makes the account say something else than the books: a materialization
returns in a loop that has already failed, or fails in a loop that has already
persisted a text, or a materialization or a check ends without a write while a failure
is active. -/
def SaveEntry.Misleads (entry : SaveEntry) (books : SaveBooks) (account : Account) : Prop :=
  match entry.ending, entry.checked with
  | some .wrote, _ => account.running = true ∧ account.loopFailure = true
  | some .failed, _ => books.loopSaved = true
  | some .removed, _ => account.running = true ∧ account.loopFailure = true ∨
      account.active = true ∧ account.deleted = true
  | some _, _ => account.running = true ∧ account.loopFailure = true ∨ account.active = true
  | none, some .removed => account.active = true ∧ account.deleted = true
  | none, some _ => account.active = true
  | none, none => False

instance SaveEntry.decidableMisleads (entry : SaveEntry) (books : SaveBooks)
    (account : Account) : Decidable (entry.Misleads books account) := by
  unfold SaveEntry.Misleads
  split <;> infer_instance

/-- What a step makes of the account. -/
inductive Account.Moves (before : Account) : Account → SaveEntry → Prop where
  | still (entry : SaveEntry) : entry.ending = none → entry.checked = none →
      Moves before before entry
  | request (entry : SaveEntry) :
      entry.ending = none ∨ entry.ending = some .skipped ∧ before.running = false →
      entry.checked = none → entry.fires = true ∨ before.error = true →
      Moves before before.request entry
  | settle (entry : SaveEntry) : before.running = true → entry.ending = none →
      entry.checked = none → entry.fires = false → Moves before before.settle entry
  | close (entry : SaveEntry) (ending : Ending) : before.running = true →
      entry.ending = some ending → entry.checked = none → entry.fires = false →
      Moves before (before.close ending) entry
  | check (entry : SaveEntry) (ending : Ending) : ending = .reconciled ∨ ending = .removed →
      entry.ending = none → entry.checked = some ending → entry.fires = false →
      Moves before (before.close ending) entry

/-- The account of a session says what the books say. -/
structure SaveBooks.Sound (books : SaveBooks) (account : Account) : Prop where
  active : account.active = books.failing
  flagged : account.active = true → account.persistFailed = true
  error : account.error = account.persistFailed
  persisted_le : books.persisted ≤ books.captured
  captured_le : books.captured ≤ books.applied
  /-- A loop that has not saved anything has something to save. -/
  unsaved : account.running = true → books.loopSaved = false → books.persisted < books.applied
  failed : account.persistFailed = true → books.persisted < books.applied
  saved : account.running = true → books.loopSaved = true →
    account.loopFailure = false ∧ account.persistFailed = false
  last : account.running = true → account.loopFailure = true → books.lastFailed = true
  length : books.verdicts.length = account.outcomes.length
  verdicts : ∀ generation : Nat, account.outcomes[generation]? = some true →
    books.verdicts[generation]? = some true

namespace SaveBooks.Sound

variable {books : SaveBooks} {before after : Account} {entry : SaveEntry}

/-- The bounds of the books are kept by every step. -/
theorem bounds (sound : books.Sound before) :
    (books.enter before after entry).persisted ≤ (books.enter before after entry).captured ∧
      (books.enter before after entry).captured ≤ (books.enter before after entry).applied ∧
      books.applied ≤ (books.enter before after entry).applied := by
  have persisted_le := sound.persisted_le
  have captured_le := sound.captured_le
  dsimp only [enter]
  split <;> split <;> split <;> omega

theorem still (sound : books.Sound before) (ending : entry.ending = none)
    (checked : entry.checked = none) : (books.enter before before entry).Sound before := by
  have bounds := @bounds books before before entry sound
  have keeps : (books.enter before before entry).persisted = books.persisted := by
    simp [enter, ending]
  refine ⟨?_, sound.flagged, sound.error, bounds.1, bounds.2.1, ?_, ?_, ?_, ?_, ?_, ?_⟩
  · simpa [enter, ending, checked] using sound.active
  · intro running unsaved
    have below := sound.unsaved running (by simpa [enter, ending, running] using unsaved)
    omega
  · intro failed
    have below := sound.failed failed
    omega
  · intro running saved
    exact sound.saved running (by simpa [enter, ending, running] using saved)
  · intro running failure
    simpa [enter, ending] using sound.last running failure
  · simpa [enter] using sound.length
  · simpa [enter] using sound.verdicts

/-- A request starts a loop only with something to save. -/
theorem request (sound : books.Sound before)
    (ending : entry.ending = none ∨ entry.ending = some .skipped ∧ before.active = false)
    (checked : entry.checked = none) (idle : before.running = false)
    (cause : entry.fires = true ∨ before.error = true) :
    (books.enter before before.request entry).Sound before.request := by
  have bounds := @bounds books before before.request entry sound
  have captured_le := sound.captured_le
  have persisted_le := sound.persisted_le
  have keeps : (books.enter before before.request entry).persisted = books.persisted := by
    rcases ending with none | skipped
    · simp [enter, none]
    · simp [enter, skipped.1]
  have below : books.persisted < (books.enter before before.request entry).applied := by
    rcases cause with fires | failed
    · have grows : (books.enter before before.request entry).applied = books.applied + 1 := by
        simp [enter, fires]
      omega
    · have below := sound.failed (sound.error.symm.trans failed)
      omega
  have fresh : (books.enter before before.request entry).loopSaved = false := by
    rcases ending with none | skipped
    · simp [enter, none, idle]
    · simp [enter, skipped.1, idle]
  rw [Account.request_of_idle idle] at *
  refine ⟨?_, sound.flagged, sound.error, bounds.1, bounds.2.1, ?_, ?_, ?_, nofun, ?_, ?_⟩
  · rcases ending with none | ⟨skipped, inactive⟩
    · simpa [enter, none, checked] using sound.active
    · simpa [enter, skipped] using inactive
  · intro _ _
    omega
  · intro _
    omega
  · intro _ saved
    rw [fresh] at saved
    cases saved
  · simpa [enter, idle] using sound.length
  · simpa [enter, idle] using sound.verdicts

theorem settle (sound : books.Sound before) (running : before.running = true)
    (ending : entry.ending = none) (checked : entry.checked = none) :
    (books.enter before before.settle entry).Sound before.settle := by
  have bounds := @bounds books before before.settle entry sound
  have keeps : (books.enter before before.settle entry).persisted = books.persisted := by
    simp [enter, ending]
  have settled : (books.enter before before.settle entry).verdicts =
      books.verdicts ++ [books.lastFailed] := by
    simp [enter, running, Account.settle]
  refine ⟨?_, sound.flagged, sound.error, bounds.1, bounds.2.1, nofun, ?_, nofun, nofun, ?_, ?_⟩
  · simpa [enter, ending, checked, Account.settle] using sound.active
  · intro failed
    have below := sound.failed failed
    omega
  · rw [settled]
    simpa [Account.settle] using sound.length
  · intro generation rejected
    rw [settled]
    change (before.outcomes ++ [before.loopFailure])[generation]? = some true at rejected
    rw [List.getElem?_append] at rejected ⊢
    rw [sound.length]
    split at rejected
    · rename_i old
      rw [if_pos old]
      exact sound.verdicts generation rejected
    · rename_i new
      rw [if_neg new]
      rw [List.getElem?_singleton] at rejected ⊢
      split at rejected
      · rename_i first
        rw [if_pos first]
        rw [sound.last running (Option.some.inj rejected)]
      · cases rejected

/-- A persisted content clears every flag of a failure. -/
theorem save_eq (sound : books.Sound before) :
    before.save = { before with
      persistFailed := false, error := false, active := false, saves := before.saves + 1 } := by
  have flagged := sound.flagged
  have error := sound.error
  unfold Account.save Account.recover
  cases before with
  | mk running outcomes loopFailure persistFailed error active deleted saves =>
      cases persistFailed <;> cases active <;> simp_all

/-- A missing file leaves no failure active. -/
theorem remove_eq (sound : books.Sound before)
    (inactive : ¬ (before.active = true ∧ before.deleted = true)) :
    before.remove = { before with deleted := true, active := false } := by
  unfold Account.remove
  cases before with
  | mk running outcomes loopFailure persistFailed error active deleted saves =>
      cases deleted <;> cases active <;> simp_all

/-- An ending that leaves no failure active, in a loop that has not failed. -/
theorem inactive (sound : books.Sound before) (running : before.running = true)
    {ending : Ending} (ended : entry.ending = some ending) (other : ending ≠ .failed)
    (unwritten : ending ≠ .wrote) (unfailed : before.loopFailure = false) {deleted : Bool} :
    (books.enter before { before with deleted := deleted, active := false } entry).Sound
      { before with deleted := deleted, active := false } := by
  have bounds := @bounds books before { before with deleted := deleted, active := false } entry
    sound
  have keeps : (books.enter before { before with deleted := deleted, active := false }
      entry).persisted = books.persisted := by
    simp [enter, ended, unwritten]
  refine ⟨?_, nofun, sound.error, bounds.1, bounds.2.1, ?_, ?_, ?_, ?_, ?_, ?_⟩
  · simp [enter, ended, other]
  · intro _ unsaved
    have below := sound.unsaved running (by simpa [enter, ended, unwritten, running] using unsaved)
    omega
  · intro failed
    have below := sound.failed failed
    omega
  · intro _ saved
    exact sound.saved running (by simpa [enter, ended, unwritten, running] using saved)
  · intro _ failure
    exact absurd (unfailed.symm.trans failure) (by decide)
  · simpa [enter] using sound.length
  · simpa [enter] using sound.verdicts

theorem close (sound : books.Sound before) {ending : Ending} (running : before.running = true)
    (ended : entry.ending = some ending) (allowed : ¬ entry.Misleads books before) :
    (books.enter before (before.close ending) entry).Sound (before.close ending) := by
  have bounds := @bounds books before (before.close ending) entry sound
  unfold SaveEntry.Misleads at allowed
  rw [ended] at allowed
  cases ending with
  | wrote =>
      have unfailed : before.loopFailure = false := by simpa [running] using allowed
      have same : before.close .wrote = { before with
        persistFailed := false, error := false, active := false, saves := before.saves + 1 } :=
        sound.save_eq
      rw [same] at bounds ⊢
      have saves : ∀ after, (books.enter before after entry).loopSaved = true := by
        intro after
        simp [enter, ended]
      refine ⟨?_, nofun, rfl, bounds.1, bounds.2.1, ?_, nofun, fun _ _ => ⟨unfailed, rfl⟩, ?_,
        ?_, ?_⟩
      · simp [enter, ended]
      · intro _ unsaved
        rw [saves] at unsaved
        cases unsaved
      · intro _ failure
        exact absurd (unfailed.symm.trans failure) (by decide)
      · simpa [enter] using sound.length
      · simpa [enter] using sound.verdicts
  | failed =>
      have unsaved : books.loopSaved = false := by simpa using allowed
      have below := sound.unsaved running unsaved
      have keeps : (books.enter before (before.close .failed) entry).persisted =
          books.persisted := by
        simp [enter, ended]
      refine ⟨?_, fun _ => rfl, rfl, bounds.1, bounds.2.1, ?_, ?_, ?_, ?_, ?_, ?_⟩
      · simp [enter, ended, Account.close, Account.fail]
      · intro _ _
        omega
      · intro _
        omega
      · intro _ saved
        simp [enter, ended, unsaved] at saved
      · intro _ _
        simp [enter, ended]
      · simpa [enter, Account.close, Account.fail] using sound.length
      · simpa [enter, Account.close, Account.fail] using sound.verdicts
  | removed =>
      obtain ⟨unfailed, silent⟩ := not_or.mp allowed
      have same : before.close .removed = { before with deleted := true, active := false } :=
        sound.remove_eq silent
      rw [same]
      exact sound.inactive running ended nofun nofun (by simpa [running] using unfailed)
  | reconciled =>
      obtain ⟨unfailed, silent⟩ := not_or.mp allowed
      have same : before.close .reconciled =
          { before with deleted := before.deleted, active := false } := by
        rw [← Bool.eq_false_iff.mpr silent]
        rfl
      rw [same]
      exact sound.inactive running ended nofun nofun (by simpa [running] using unfailed)
  | skipped =>
      obtain ⟨unfailed, silent⟩ := not_or.mp allowed
      have same : before.close .skipped =
          { before with deleted := before.deleted, active := false } := by
        rw [← Bool.eq_false_iff.mpr silent]
        rfl
      rw [same]
      exact sound.inactive running ended nofun nofun (by simpa [running] using unfailed)

/-- A check that reconciles leaves no failure active. -/
theorem check (sound : books.Sound before) {ending : Ending}
    (reconciles : ending = .reconciled ∨ ending = .removed) (running : entry.ending = none)
    (checked : entry.checked = some ending) (allowed : ¬ entry.Misleads books before) :
    (books.enter before (before.close ending) entry).Sound (before.close ending) := by
  unfold SaveEntry.Misleads at allowed
  rw [running, checked] at allowed
  have same : ∃ deleted, before.close ending =
      { before with deleted := deleted, active := false } := by
    rcases reconciles with rfl | rfl
    · refine ⟨before.deleted, ?_⟩
      rw [← Bool.eq_false_iff.mpr allowed]
      rfl
    · exact ⟨true, sound.remove_eq allowed⟩
  obtain ⟨deleted, same⟩ := same
  rw [same]
  have bounds := @bounds books before { before with deleted := deleted, active := false } entry
    sound
  have keeps : (books.enter before { before with deleted := deleted, active := false }
      entry).persisted = books.persisted := by
    simp [enter, running]
  refine ⟨?_, nofun, sound.error, bounds.1, bounds.2.1, ?_, ?_, ?_, ?_, ?_, ?_⟩
  · simp [enter, running, checked]
  · intro (runs : before.running = true) unsaved
    have below := sound.unsaved runs (by simpa [enter, running, runs] using unsaved)
    omega
  · intro failed
    have below := sound.failed failed
    omega
  · intro (runs : before.running = true) saved
    exact sound.saved runs (by simpa [enter, running, runs] using saved)
  · intro runs failure
    simpa [enter, running] using sound.last runs failure
  · simpa [enter] using sound.length
  · simpa [enter] using sound.verdicts

/-- **Books of the saves.** Every step that does not mislead keeps the account of the
session equal to the books. -/
theorem moves (sound : books.Sound before) (moved : before.Moves after entry)
    (allowed : ¬ entry.Misleads books before) : (books.enter before after entry).Sound after := by
  cases moved with
  | still _ ending checked => exact sound.still ending checked
  | request _ ending checked cause =>
      cases runs : before.running with
      | true =>
          rw [Account.request_of_running runs]
          rcases ending with none | ⟨_, idle⟩
          · exact sound.still none checked
          · exact absurd (runs.symm.trans idle) (by decide)
      | false =>
          refine sound.request ?_ checked runs cause
          rcases ending with none | ⟨skipped, _⟩
          · exact .inl none
          · right
            unfold SaveEntry.Misleads at allowed
            rw [skipped] at allowed
            exact ⟨skipped, Bool.eq_false_iff.mpr (not_or.mp allowed).2⟩
  | settle _ running ending checked fires => exact sound.settle running ending checked
  | close _ ending running ended checked fires => exact sound.close running ended allowed
  | check _ ending reconciles running checked fires =>
      exact sound.check reconciles running checked allowed

end SaveBooks.Sound

end Kb1Daemon
