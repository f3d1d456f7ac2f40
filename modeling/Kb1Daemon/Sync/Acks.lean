import Kb1Daemon.Session.Account
import Kb1Daemon.Session.Load
import Mathlib.Data.List.Nodup

/-! # Failure reports and save acknowledgements

A socket answers an acked update with an acknowledgement once the flush made for it has
resolved. When the flush is rejected the acknowledgement is deferred to the next
`content-persisted` event of the session.

A persist loop may hold a failed and a successful materialization. It then rejects its
promise although its last materialization has succeeded, and the deferral comes after
the event it waits for (`ack_stranded`). A reconcile makes document and file agree and
leaves the failure active. In runs without such steps every report is exact and no
acknowledgement is stranded (`saves_reported`).
-/

namespace Kb1Daemon

/-- The identity of an acked update: its socket and the id it carries. -/
structure AckKey where
  socket : Nat
  ackId : JsString
  deriving DecidableEq, Repr

/-- An acked update whose flush is under way or settled. -/
structure AckRequest where
  key : AckKey
  /-- How many updates had been applied when this one was. -/
  stamp : Nat
  /-- The reaction to the flush has run. -/
  reacted : Bool

/-- A call of `flush`. -/
structure SaveCall where
  task : FlushTask
  /-- Whether the last materialization the call waited for failed. -/
  waited : Option Bool
  /-- The acked update the call was made for. -/
  ack : Option AckRequest

/-- A session with its flushes, its sockets and the books of its saves. -/
structure Reporting (R : Runtime) where
  site : Site R
  calls : List SaveCall
  /-- The sockets that are closed. -/
  closed : List Nat
  /-- The keys of `deferredPersistedAcks`, of all sockets. -/
  deferred : List AckKey
  /-- The acknowledgements sent. -/
  sent : List AckKey
  books : SaveBooks

/-- The steps of a session, of its flushes and of its sockets. -/
inductive ReportLabel (R : Runtime) where
  | session (label : SessionLabel R)
  /-- `flush` is called. -/
  | flush
  /-- A socket delivers an acked update. -/
  | ackedUpdate (key : AckKey) (update : R.Update) (attribution : Option R.Attribution)
  /-- A flush continues. -/
  | resume (index : Nat)
  /-- A socket reacts to the flush of an acked update. -/
  | react (index : Nat)
  /-- A socket is closed. -/
  | close (socket : Nat)

/-- The persist promise a flush waits for. -/
def FlushTask.awaited : FlushTask → Option Nat
  | .awaitPersist generation | .awaitRetry generation => some generation
  | .resolved | .rejected => none

namespace SaveCall

/-- The identity of the acked update of the call. -/
def key (call : SaveCall) : Option AckKey := call.ack.map AckRequest.key

/-- The reaction to the flush is due, or the flush can continue. -/
def isDue (call : SaveCall) (outcomes : List Bool) : Bool :=
  match call.ack with
  | none => false
  | some ack =>
      !ack.reacted &&
        match call.task.awaited with
        | none => true
        | some generation => generation < outcomes.length

/-- The reaction to the flush has run. -/
def markReacted (call : SaveCall) (ack : AckRequest) : SaveCall :=
  { call with ack := some { ack with reacted := true } }

end SaveCall

/-- What the books take down of a step of the session. -/
def Site.saveEntry {R : Runtime} (site next : Site R) (label : SessionLabel R) : SaveEntry where
  fires :=
    match label with
    | .update update _ => R.firesUpdate site.session.doc update
    | .edit content _ => site.session.currentContent ≠ content
    | _ => false
  captures := site.session.captures next.session
  ending :=
    match label with
    | .persist io => site.session.ending io
    | _ => site.session.startEnding next.session
  checked :=
    match label with
    | .check io => site.session.checkEnding io
    | _ => none

namespace Reporting

variable {R : Runtime}

/-- The account of the session. -/
def account (state : Reporting R) : Account := state.site.session.account

/-- A socket is open: it was not closed, and a deletion closes them all. -/
def isOpen (state : Reporting R) (socket : Nat) : Bool :=
  !state.account.deleted && socket ∉ state.closed

/-- The session takes a step; the sockets hear its events. -/
def advance (state : Reporting R) (site : Site R) (calls : List SaveCall) (entry : SaveEntry) :
    Reporting R where
  site := site
  calls := calls
  closed := state.closed
  deferred :=
    if !state.account.deleted && site.session.account.deleted then []
    else if state.account.saves < site.session.account.saves then
      state.deferred.filter fun key => !state.isOpen key.socket
    else state.deferred
  sent :=
    if state.account.saves < site.session.account.saves then
      state.sent ++ state.deferred.filter fun key => state.isOpen key.socket
    else state.sent
  books := state.books.enter state.account site.session.account entry

/-- A flush changes the session. -/
def flushed (state : Reporting R) (session : Session R) (calls : List SaveCall) (fires : Bool) :
    Reporting R :=
  state.advance { state.site with session := session } calls
    { fires := fires
      captures := state.site.session.captures session
      ending := state.site.session.startEnding session
      checked := none }

/-- A socket reacts to the flush of its update. -/
def react (state : Reporting R) (index : Nat) : Option (Reporting R) :=
  match state.calls[index]? with
  | none => none
  | some call =>
      match call.task, call.ack with
      | .resolved, some ack =>
          if ack.reacted then none
          else
            some { state with
              calls := state.calls.set index (call.markReacted ack)
              sent :=
                if state.isOpen ack.key.socket then state.sent ++ [ack.key] else state.sent }
      | .rejected, some ack =>
          if ack.reacted then none
          else
            some { state with
              calls := state.calls.set index (call.markReacted ack)
              deferred :=
                if ack.key ∈ state.deferred then state.deferred
                else state.deferred ++ [ack.key] }
      | _, _ => none

end Reporting

/-- The machine of a session with its flushes and its sockets. -/
def reportMachine (R : Runtime) : Machine (Reporting R) (ReportLabel R) where
  step state label :=
    match label with
    | .session label =>
        ((sessionMachine R).step state.site label).map fun site =>
          state.advance site state.calls (state.site.saveEntry site label)
    | .flush =>
        let flushed := state.site.session.flush
        some (state.flushed flushed.1 (state.calls ++ [⟨flushed.2, none, none⟩]) false)
    | .ackedUpdate key update attribution =>
        if state.site.session.opened ∧ state.isOpen key.socket = true then
          let fires := R.firesUpdate state.site.session.doc update
          let flushed := (state.site.session.applyUpdate update attribution).flush
          let stamp := if fires then state.books.applied + 1 else state.books.applied
          some (state.flushed flushed.1
            (state.calls ++ [⟨flushed.2, none, some ⟨key, stamp, false⟩⟩]) fires)
        else none
    | .resume index =>
        match state.calls[index]? with
        | none => none
        | some call =>
            (state.site.session.flushStep call.task).map fun flushed =>
              state.flushed flushed.1
                (state.calls.set index { call with
                  task := flushed.2
                  waited := call.task.awaited.bind fun generation =>
                    state.books.verdicts[generation]? })
                false
    | .react index => state.react index
    | .close socket =>
        some { state with
          closed := socket :: state.closed
          deferred := state.deferred.filter fun key => key.socket ≠ socket }

namespace Reporting

variable {R : Runtime}

/-- A retry would start a loop that finds the session deleted and leaves the failure
active. -/
def RetriesDeleted (state : Reporting R) : Prop :=
  state.account.running = false ∧ state.account.deleted = true ∧ state.account.active = true

/-- The step misleads: its ending does, a materialization succeeds or fails while a
socket has still to react to an earlier promise, a flush retries in vain on a deleted
session, or a socket uses an id twice. -/
def Misreports (state : Reporting R) : ReportLabel R → Prop
  | .session (.persist io) =>
      SaveEntry.Misleads ⟨false, false, state.site.session.ending io, none⟩ state.books
          state.account ∨
        (state.site.session.ending io = some .wrote ∨
          state.site.session.ending io = some .failed) ∧
          state.calls.any (fun call => call.isDue state.account.outcomes) = true
  | .session (.check io) =>
      SaveEntry.Misleads ⟨false, false, none, state.site.session.checkEnding io⟩ state.books
        state.account
  | .session .retry | .flush | .resume _ => state.RetriesDeleted
  | .ackedUpdate key _ _ => key ∈ state.calls.filterMap SaveCall.key
  | _ => False

instance decidableMisreports (state : Reporting R) (label : ReportLabel R) :
    Decidable (state.Misreports label) := by
  unfold Misreports RetriesDeleted
  split <;> infer_instance

/-- **Exact reports.** A rejected flush has waited for a materialization that failed
last; a failure is active exactly when the last materialization failed and nothing was
written or reconciled since; and an acked update that has been persisted, on a socket
that is open, has exactly one acknowledgement, or its flush is still on its way and not
rejected. -/
structure Exact (state : Reporting R) : Prop where
  flushes : ∀ call ∈ state.calls, call.task = .rejected → call.waited = some true
  active : state.site.session.activePersistFailureEvent.isSome = state.books.failing
  acks : ∀ call ∈ state.calls, ∀ ack, call.ack = some ack →
    state.isOpen ack.key.socket = true → ack.stamp ≤ state.books.persisted →
      ack.reacted = true ∧ state.sent.count ack.key = 1 ∨
        ack.reacted = false ∧ state.sent.count ack.key = 0 ∧ call.task ≠ .rejected

end Reporting

namespace Session

variable {R : Runtime}

theorem startEnding_cases (session next : Session R) :
    session.startEnding next = none ∨
      session.startEnding next = some .skipped ∧ session.account.running = false := by
  unfold startEnding
  split
  · rename_i idle _
    right
    exact ⟨rfl, by rw [account, idle]; rfl⟩
  · exact .inl rfl

theorem startEnding_same {session next : Session R} (same : next.persist = session.persist) :
    session.startEnding next = none := by
  unfold startEnding
  rw [same]
  split
  · rename_i idle test
    rw [idle] at test
    cases test
  · rfl

/-- Only in a deleted session a loop ends its first materialization at once. -/
theorem startEnding_requestPersist {session base : Session R}
    (persist : base.persist = session.persist) (live : base.deleted = false) :
    session.startEnding base.requestPersist = none := by
  cases task : session.persist with
  | idle =>
      have idle : base.persist.isIdle = true := by
        rw [persist, task]
        rfl
      unfold startEnding requestPersist
      rw [task, if_pos idle]
      rcases @startMaterialize_cases R
          { base with persistRequested := true, loopFailure := false } live with same | same
      · rw [same]
      · rw [same]
  | _ =>
      unfold startEnding
      rw [task]

theorem startEnding_applyUpdate {session : Session R} (live : session.deleted = false)
    (update : R.Update) (attribution : Option R.Attribution) :
    session.startEnding (session.applyUpdate update attribution) = none := by
  unfold applyUpdate handleDocumentUpdate
  rw [live]
  split
  · exact startEnding_requestPersist rfl rfl
  · exact startEnding_same rfl

theorem startEnding_ackedUpdate {session : Session R} (live : session.deleted = false)
    (update : R.Update) (attribution : Option R.Attribution) :
    session.startEnding (session.applyUpdate update attribution).flush.1 = none := by
  have applied := startEnding_applyUpdate live update attribution
  rcases (session.applyUpdate update attribution).flush_retries with same | ⟨_, requested⟩
  · rw [same]
    exact applied
  · rw [requested]
    cases idle : (session.applyUpdate update attribution).persist.isIdle with
    | true =>
        have moved := account_applyUpdate live update attribution
        cases fires : R.firesUpdate session.doc update with
        | true =>
            rw [fires, if_pos rfl] at moved
            have runs := (congrArg Account.running moved).trans (Account.running_request _)
            rw [account, idle] at runs
            cases runs
        | false =>
            unfold applyUpdate
            rw [fires, if_neg Bool.false_ne_true]
            exact startEnding_requestPersist rfl live
    | false =>
        unfold requestPersist
        rw [if_neg (by rw [idle]; decide)]
        exact applied

theorem startEnding_applyContent {session : Session R} (live : session.deleted = false)
    (content : JsString) (attribution : Option R.Attribution) :
    session.startEnding (session.applyContent content attribution) = none := by
  unfold applyContent handleDocumentUpdate
  rw [live]
  split
  · exact startEnding_same rfl
  · exact startEnding_requestPersist rfl rfl

/-- A flush waits for the promise of a running loop, unless it resolves at once. -/
theorem flush_awaits (session : Session R) :
    session.flush.2 = .resolved ∨
      session.flush.2.awaited = some session.flush.1.account.outcomes.length ∧
        session.flush.1.account.running = true ∧
        (session.account.running = true ∨ session.account.error = true) := by
  unfold flush
  split
  · rename_i idle
    unfold retryFlush
    split
    · rename_i failed
      right
      rw [account_requestPersist, Account.request_of_idle (by rw [account, idle]; rfl)]
      exact ⟨rfl, rfl, .inr failed⟩
    · exact .inl rfl
  · rename_i busy
    have runs : session.account.running = true := by
      rw [account, Bool.eq_false_iff.mpr busy]
      rfl
    exact .inr ⟨rfl, runs, .inl runs⟩

/-- A flush continues when the promise it waits for is settled. -/
theorem flushStep_settled {session next : Session R} {task nextTask : FlushTask}
    (stepped : session.flushStep task = some (next, nextTask)) :
    ∃ generation, task.awaited = some generation ∧
      (session.account.outcomes[generation]? = some true ∧ nextTask = .rejected ∨
        session.account.outcomes[generation]? = some false ∧
          (nextTask = .resolved ∨ session.account.error = true ∧
            nextTask.awaited = some next.account.outcomes.length ∧
            next.account.running = true)) := by
  unfold flushStep at stepped
  split at stepped
  · rename_i generation
    refine ⟨generation, rfl, ?_⟩
    split at stepped
    · cases stepped
    · rename_i rejected
      cases stepped
      exact .inl ⟨rejected, rfl⟩
    · rename_i settled
      refine .inr ⟨settled, ?_⟩
      unfold retryFlush at stepped
      split at stepped
      · rename_i failed
        cases stepped
        right
        rw [account_requestPersist]
        unfold Account.request
        split
        · rename_i runs
          exact ⟨failed, rfl, runs⟩
        · exact ⟨failed, rfl, rfl⟩
      · cases stepped
        exact .inl rfl
  · rename_i generation
    refine ⟨generation, rfl, ?_⟩
    split at stepped
    · cases stepped
    · rename_i rejected
      cases stepped
      exact .inl ⟨rejected, rfl⟩
    · rename_i settled
      cases stepped
      exact .inr ⟨settled, .inl rfl⟩
  · cases stepped
  · cases stepped

/-- A step that asks for nothing, or for a persist. -/
theorem moves_start {session next : Session R} {fires captures : Bool}
    (moved : next.account = session.account ∧ next.persist = session.persist ∨
      (fires = true ∨ session.account.error = true) ∧
        next.account = session.account.request) :
    session.account.Moves next.account ⟨fires, captures, session.startEnding next, none⟩ := by
  rcases moved with ⟨same, persist⟩ | ⟨cause, requested⟩
  · rw [same]
    exact .still _ (startEnding_same persist) rfl
  · rw [requested]
    exact .request _ (startEnding_cases session next) rfl cause

theorem moves_retries {session next : Session R} {captures : Bool}
    (retried : next = session ∨
      session.account.error = true ∧ next = session.requestPersist) :
    session.account.Moves next.account ⟨false, captures, session.startEnding next, none⟩ := by
  rcases retried with same | ⟨failed, requested⟩
  · rw [same]
    exact moves_start (.inl ⟨rfl, rfl⟩)
  · rw [requested]
    exact moves_start (.inr ⟨.inr failed, account_requestPersist session⟩)

/-- An acked update and its flush ask for a persist at most once. -/
theorem moves_ackedUpdate {session : Session R} (live : session.deleted = false)
    (update : R.Update) (attribution : Option R.Attribution) {captures : Bool} :
    session.account.Moves (session.applyUpdate update attribution).flush.1.account
      ⟨R.firesUpdate session.doc update, captures,
        session.startEnding (session.applyUpdate update attribution).flush.1, none⟩ := by
  have moved := account_applyUpdate live update attribution
  have retried := (session.applyUpdate update attribution).flush_retries
  apply moves_start
  cases fires : R.firesUpdate session.doc update with
  | true =>
      right
      refine ⟨.inl rfl, ?_⟩
      rw [fires, if_pos rfl] at moved
      rcases retried with same | ⟨_, requested⟩
      · rw [same, moved]
      · rw [requested, account_requestPersist, moved]
        exact Account.request_request _
  | false =>
      rw [fires, if_neg Bool.false_ne_true] at moved
      rcases retried with same | ⟨failed, requested⟩
      · left
        rw [same]
        refine ⟨moved, ?_⟩
        unfold applyUpdate
        rw [fires]
        rfl
      · right
        rw [moved] at failed
        rw [requested, account_requestPersist, moved]
        exact ⟨.inr failed, rfl⟩

theorem running_of_persistStep {session next : Session R} {disk nextDisk : Disk} {io : Io}
    (stepped : session.persistStep disk io = some (next, nextDisk)) :
    session.account.running = true := by
  cases task : session.persist with
  | idle =>
      unfold persistStep at stepped
      rw [task] at stepped
      cases stepped
  | _ =>
      rw [account, task]
      rfl

theorem moves_persistStep {session next : Session R} {disk nextDisk : Disk} {io : Io}
    {captures : Bool} (stepped : session.persistStep disk io = some (next, nextDisk)) :
    session.account.Moves next.account ⟨false, captures, session.ending io, none⟩ := by
  have running := running_of_persistStep stepped
  have moved := account_persistStep stepped
  cases ended : session.ending io with
  | some ending =>
      rw [ended] at moved
      rw [moved]
      exact .close _ ending running rfl rfl rfl
  | none =>
      rw [ended] at moved
      dsimp only at moved
      split at moved
      · rw [moved]
        exact .settle _ running rfl rfl rfl
      · rw [moved]
        exact .still _ rfl rfl

theorem checkEnding_cases {session : Session R} {io : Io} {ending : Ending}
    (ended : session.checkEnding io = some ending) :
    ending = .reconciled ∨ ending = .removed := by
  unfold checkEnding at ended
  split at ended
  · cases ended
    exact .inr rfl
  · cases ended
    exact .inl rfl
  · cases ended

theorem moves_checkStep {session next : Session R} {disk nextDisk : Disk} {io : Io}
    {captures : Bool} (stepped : session.checkStep disk io = some (next, nextDisk)) :
    session.account.Moves next.account ⟨false, captures, none, session.checkEnding io⟩ := by
  have moved := account_checkStep stepped
  cases ended : session.checkEnding io with
  | some ending =>
      rw [ended] at moved
      rw [moved]
      exact .check _ ending (checkEnding_cases ended) rfl rfl rfl
  | none =>
      rw [ended] at moved
      rw [moved]
      exact .still _ rfl rfl

end Session

/-- Every step of a session moves its account as the books expect. -/
theorem Site.moves_saveEntry {R : Runtime} {site next : Site R} {label : SessionLabel R}
    (stepped : (sessionMachine R).step site label = some next) :
    site.session.account.Moves next.session.account (site.saveEntry next label) := by
  cases label with
  | update update attribution =>
      dsimp only [sessionMachine] at stepped
      split at stepped
      · rename_i ready
        obtain rfl := Option.some.inj stepped
        have live := Bool.eq_false_iff.mpr ready.2
        have moved := Session.account_applyUpdate live update attribution
        apply Session.moves_start
        cases fires : R.firesUpdate site.session.doc update with
        | true =>
            rw [fires] at moved
            exact .inr ⟨.inl fires, moved⟩
        | false =>
            rw [fires] at moved
            left
            refine ⟨moved, ?_⟩
            unfold Session.applyUpdate
            rw [fires]
            rfl
      · cases stepped
  | edit content attribution =>
      dsimp only [sessionMachine] at stepped
      split at stepped
      · rename_i ready
        obtain rfl := Option.some.inj stepped
        have live := Bool.eq_false_iff.mpr ready.2
        have moved := Session.account_applyContent live content attribution
        apply Session.moves_start
        by_cases same : site.session.currentContent = content
        · rw [if_neg (not_not_intro same)] at moved
          left
          refine ⟨moved, ?_⟩
          unfold Session.applyContent
          rw [if_pos same]
        · rw [if_pos same] at moved
          exact .inr ⟨.inl (by simpa using same), moved⟩
      · cases stepped
  | retry =>
      dsimp only [sessionMachine] at stepped
      split at stepped
      · rename_i failed
        obtain rfl := Option.some.inj stepped
        apply Session.moves_start
        exact .inr ⟨.inr failed, Session.account_requestPersist _⟩
      · cases stepped
  | persist io =>
      obtain ⟨⟨session, disk⟩, persisted, rfl⟩ := Option.map_eq_some_iff.mp stepped
      exact Session.moves_persistStep persisted
  | startCheck =>
      obtain ⟨session, started, rfl⟩ := Option.map_eq_some_iff.mp stepped
      have same : session.account = site.session.account ∧
          session.persist = site.session.persist := by
        unfold Session.startCheck at started
        split at started
        · split at started
          · cases started
            exact ⟨rfl, rfl⟩
          · cases started
        · cases started
      exact Session.moves_start (.inl same)
  | check io =>
      obtain ⟨⟨session, disk⟩, checked, rfl⟩ := Option.map_eq_some_iff.mp stepped
      have persist := congrArg Session.Schedule.persist (Session.schedule_checkStep checked)
      have entry : site.saveEntry ⟨session, disk⟩ (.check io) =
          ⟨false, site.session.captures session, none, site.session.checkEnding io⟩ := by
        unfold Site.saveEntry
        dsimp only
        rw [Session.startEnding_same persist]
      rw [entry]
      exact Session.moves_checkStep checked
  | external content =>
      obtain rfl := Option.some.inj stepped
      exact Session.moves_start (.inl ⟨rfl, rfl⟩)

namespace Account.Moves

variable {before after : Account} {entry : SaveEntry}

/-- Only a persisted content is told of. -/
theorem saves_lt_iff (moved : before.Moves after entry) :
    before.saves < after.saves ↔ entry.ending = some .wrote := by
  cases moved with
  | still _ ending _ =>
      rw [ending]
      exact iff_of_false (Nat.lt_irrefl _) nofun
  | request _ ending _ _ =>
      have same : before.request.saves = before.saves := by
        unfold Account.request
        split <;> rfl
      rw [same]
      refine iff_of_false (Nat.lt_irrefl _) ?_
      rcases ending with none | ⟨skipped, _⟩
      · rw [none]
        nofun
      · rw [skipped]
        nofun
  | settle _ _ ending _ _ =>
      rw [ending]
      exact iff_of_false (Nat.lt_irrefl _) nofun
  | close _ ending _ ended _ _ =>
      rw [ended]
      cases ending with
      | wrote =>
          refine iff_of_true ?_ rfl
          change before.saves < before.recover.saves + 1
          unfold Account.recover
          split <;> exact Nat.lt_succ_self _
      | removed =>
          refine iff_of_false ?_ nofun
          change ¬ before.saves < before.remove.saves
          unfold Account.remove
          split <;> exact Nat.lt_irrefl _
      | _ => exact iff_of_false (Nat.lt_irrefl _) nofun
  | check _ ending reconciles running _ _ =>
      rw [running]
      refine iff_of_false ?_ nofun
      rcases reconciles with rfl | rfl
      · exact Nat.lt_irrefl _
      · change ¬ before.saves < before.remove.saves
        unfold Account.remove
        split <;> exact Nat.lt_irrefl _

/-- A deleted session stays deleted. -/
theorem deleted (moved : before.Moves after entry) (gone : before.deleted = true) :
    after.deleted = true := by
  have closed : ∀ ending, (before.close ending).deleted = true := by
    intro ending
    cases ending with
    | wrote =>
        change before.recover.deleted = true
        unfold Account.recover
        split <;> exact gone
    | removed =>
        change before.remove.deleted = true
        unfold Account.remove
        split <;> exact gone
    | _ => exact gone
  cases moved with
  | still => exact gone
  | request =>
      unfold Account.request
      split <;> exact gone
  | settle => exact gone
  | close => exact closed _
  | check => exact closed _

/-- A persist promise stays pending until it is settled. -/
theorem promise (moved : before.Moves after entry) :
    after.outcomes = before.outcomes ∧ (before.running = true → after.running = true) ∨
      before.running = true ∧ entry.ending = none ∧ after = before.settle := by
  have closed : ∀ ending, (before.close ending).outcomes = before.outcomes ∧
      (before.close ending).running = before.running := by
    intro ending
    cases ending with
    | wrote =>
        change before.recover.outcomes = before.outcomes ∧ before.recover.running = before.running
        unfold Account.recover
        split <;> exact ⟨rfl, rfl⟩
    | removed =>
        change before.remove.outcomes = before.outcomes ∧ before.remove.running = before.running
        unfold Account.remove
        split <;> exact ⟨rfl, rfl⟩
    | _ => exact ⟨rfl, rfl⟩
  cases moved with
  | still => exact .inl ⟨rfl, id⟩
  | request =>
      left
      unfold Account.request
      split
      · exact ⟨rfl, id⟩
      · exact ⟨rfl, fun _ => rfl⟩
  | settle _ running ending => exact .inr ⟨running, ending, rfl⟩
  | close _ ending => exact .inl ⟨(closed ending).1, (closed ending).2.trans⟩
  | check _ ending => exact .inl ⟨(closed ending).1, (closed ending).2.trans⟩

/-- Only a materialization that fails raises the failure flag. -/
theorem unfailed (moved : before.Moves after entry) (other : entry.ending ≠ some .failed)
    (unfailed : before.persistFailed = false) : after.persistFailed = false := by
  cases moved with
  | still => exact unfailed
  | request =>
      unfold Account.request
      split <;> exact unfailed
  | settle => exact unfailed
  | close _ ending _ ended =>
      cases ending with
      | wrote =>
          change before.recover.persistFailed = false
          unfold Account.recover
          split
          · rfl
          · exact unfailed
      | removed =>
          change before.remove.persistFailed = false
          unfold Account.remove
          split <;> exact unfailed
      | failed => exact absurd ended other
      | _ => exact unfailed
  | check _ ending reconciles =>
      rcases reconciles with rfl | rfl
      · exact unfailed
      · change before.remove.persistFailed = false
        unfold Account.remove
        split <;> exact unfailed

end Account.Moves

namespace Reporting

variable {R : Runtime}

/-- The flush of an acked update that is persisted is going to resolve. -/
def OnItsWay (state : Reporting R) (call : SaveCall) : Prop :=
  call.task = .resolved ∨ ∃ generation, call.task.awaited = some generation ∧
    (state.account.outcomes[generation]? = some false ∧ state.account.persistFailed = false ∨
      generation = state.account.outcomes.length ∧ state.account.running = true ∧
        state.books.loopSaved = true)

/-- What is known of a call. -/
structure CallKept (state : Reporting R) (call : SaveCall) : Prop where
  awaiting : ∀ generation, call.task.awaited = some generation →
    generation < state.account.outcomes.length ∨
      generation = state.account.outcomes.length ∧ state.account.running = true
  rejected : call.task = .rejected → call.waited = some true
  unreacted : ∀ ack, call.ack = some ack → ack.reacted = false →
    ack.key ∉ state.sent ∧ ack.key ∉ state.deferred
  waits : ∀ ack, call.ack = some ack → ack.reacted = false →
    state.isOpen ack.key.socket = true → ack.stamp ≤ state.books.persisted →
      state.OnItsWay call
  reacted : ∀ ack, call.ack = some ack → ack.reacted = true →
    state.isOpen ack.key.socket = true →
      state.sent.count ack.key = 1 ∧ ack.key ∉ state.deferred ∨
        state.sent.count ack.key = 0 ∧ ack.key ∈ state.deferred ∧
          state.books.persisted < ack.stamp

/-- The invariant of exact reports. -/
structure Kept (state : Reporting R) : Prop where
  books : state.books.Sound state.account
  keys : ∀ (first second : Nat) (call other : SaveCall) (key : AckKey),
    state.calls[first]? = some call → state.calls[second]? = some other →
      call.key = some key → other.key = some key → first = second
  sent : ∀ key ∈ state.sent, key ∈ state.calls.filterMap SaveCall.key
  deferred : ∀ key ∈ state.deferred, key ∈ state.calls.filterMap SaveCall.key
  deferredOnce : state.deferred.Nodup
  calls : ∀ call ∈ state.calls, state.CallKept call

theorem CallKept.resolves {state : Reporting R} {call : SaveCall} {ack : AckRequest}
    (kept : state.CallKept call) (asked : call.ack = some ack) (waiting : ack.reacted = false)
    (isOpen : state.isOpen ack.key.socket = true) (persisted : ack.stamp ≤ state.books.persisted) :
    call.task ≠ .rejected := by
  intro rejected
  rcases kept.waits ack asked waiting isOpen persisted with resolved | ⟨generation, awaited, _⟩
  · rw [rejected] at resolved
    cases resolved
  · rw [rejected] at awaited
    cases awaited

theorem Kept.exact {state : Reporting R} (kept : state.Kept) : state.Exact where
  flushes call member := (kept.calls call member).rejected
  active := kept.books.active
  acks := by
    intro call member ack asked isOpen persisted
    have known := kept.calls call member
    cases reacted : ack.reacted with
    | true =>
        left
        rcases known.reacted ack asked reacted isOpen with ⟨once, _⟩ | ⟨_, _, unsaved⟩
        · exact ⟨rfl, once⟩
        · omega
    | false =>
        right
        refine ⟨rfl, ?_, known.resolves asked reacted isOpen persisted⟩
        exact List.count_eq_zero.mpr (known.unreacted ack asked reacted).1

theorem isOpen_advance {state : Reporting R} {site : Site R} {calls : List SaveCall}
    {entry : SaveEntry} (moved : state.account.Moves site.session.account entry) {socket : Nat}
    (isOpen : (state.advance site calls entry).isOpen socket = true) :
    state.isOpen socket = true ∧ site.session.account.deleted = false := by
  unfold Reporting.isOpen at *
  rw [Bool.and_eq_true] at isOpen ⊢
  have live : site.session.account.deleted = false := by
    rw [← Bool.not_eq_true']
    exact isOpen.1
  refine ⟨⟨?_, isOpen.2⟩, live⟩
  cases gone : state.account.deleted with
  | true => exact absurd ((moved.deleted gone).symm.trans live) (by decide)
  | false => rfl

/-- A flush that is going to resolve keeps that in a step. -/
theorem OnItsWay.advance {state : Reporting R} {site : Site R} {calls : List SaveCall}
    {entry : SaveEntry} {call : SaveCall} (sound : state.books.Sound state.account)
    (moved : state.account.Moves site.session.account entry)
    (calm : entry.ending = some .failed → call.isDue state.account.outcomes = false)
    {ack : AckRequest} (asked : call.ack = some ack) (waiting : ack.reacted = false)
    (onItsWay : state.OnItsWay call) : (state.advance site calls entry).OnItsWay call := by
  rcases onItsWay with resolved | ⟨generation, awaited, ⟨settled, unfailed⟩ | ⟨rfl, runs, saved⟩⟩
  · exact .inl resolved
  · right
    refine ⟨generation, awaited, .inl ⟨?_, ?_⟩⟩
    · change site.session.account.outcomes[generation]? = some false
      rcases moved.promise with ⟨same, _⟩ | ⟨_, _, same⟩
      · rw [same]
        exact settled
      · rw [same]
        obtain ⟨bound, _⟩ := List.getElem?_eq_some_iff.mp settled
        exact (List.getElem?_append_left bound).trans settled
    · refine moved.unfailed ?_ unfailed
      intro failed
      have idle := calm failed
      obtain ⟨bound, _⟩ := List.getElem?_eq_some_iff.mp settled
      simp [SaveCall.isDue, asked, waiting, awaited, bound] at idle
  · right
    refine ⟨_, awaited, ?_⟩
    rcases moved.promise with ⟨same, running⟩ | ⟨_, _, same⟩
    · right
      refine ⟨congrArg List.length same.symm, running runs, ?_⟩
      change (if entry.ending = some .wrote then true
        else state.books.loopSaved && state.account.running) = true
      rw [saved, runs]
      split <;> rfl
    · left
      obtain ⟨loop, unfailed⟩ := sound.saved runs saved
      change site.session.account.outcomes[state.account.outcomes.length]? = some false ∧
        site.session.account.persistFailed = false
      rw [same]
      refine ⟨?_, unfailed⟩
      change (state.account.outcomes ++ [state.account.loopFailure])[_]? = some false
      rw [loop]
      exact List.getElem?_concat_length

theorem awaiting_advance {state : Reporting R} {site : Site R} {calls : List SaveCall}
    {entry : SaveEntry} {generation : Nat}
    (moved : state.account.Moves site.session.account entry)
    (awaiting : generation < state.account.outcomes.length ∨
      generation = state.account.outcomes.length ∧ state.account.running = true) :
    generation < (state.advance site calls entry).account.outcomes.length ∨
      generation = (state.advance site calls entry).account.outcomes.length ∧
        (state.advance site calls entry).account.running = true := by
  change generation < site.session.account.outcomes.length ∨
    generation = site.session.account.outcomes.length ∧ site.session.account.running = true
  rcases moved.promise with ⟨same, running⟩ | ⟨_, _, same⟩
  · rw [same]
    rcases awaiting with settled | ⟨current, runs⟩
    · exact .inl settled
    · exact .inr ⟨current, running runs⟩
  · left
    rw [same]
    change generation < (state.account.outcomes ++ [state.account.loopFailure]).length
    rw [List.length_append, List.length_singleton]
    rcases awaiting with settled | ⟨current, _⟩ <;> omega

theorem mem_sent_advance {state : Reporting R} {site : Site R} {calls : List SaveCall}
    {entry : SaveEntry} {key : AckKey} (member : key ∈ (state.advance site calls entry).sent) :
    key ∈ state.sent ∨ key ∈ state.deferred := by
  change key ∈ ite _ _ _ at member
  split at member
  · rcases List.mem_append.mp member with sent | released
    · exact .inl sent
    · exact .inr (List.mem_filter.mp released).1
  · exact .inl member

/-- A step defers nothing new. -/
theorem mem_deferred_advance {state : Reporting R} {site : Site R} {calls : List SaveCall}
    {entry : SaveEntry} {key : AckKey}
    (member : key ∈ (state.advance site calls entry).deferred) : key ∈ state.deferred := by
  change key ∈ ite _ _ (ite _ _ _) at member
  split at member
  · cases member
  · split at member
    · exact (List.mem_filter.mp member).1
    · exact member

/-- **A call in a step of the session.** -/
theorem CallKept.advance {state : Reporting R} {site : Site R} {calls : List SaveCall}
    {entry : SaveEntry} {call : SaveCall} (kept : state.Kept) (known : state.CallKept call)
    (moved : state.account.Moves site.session.account entry)
    (calm : entry.ending = some .wrote ∨ entry.ending = some .failed →
      call.isDue state.account.outcomes = false) :
    (state.advance site calls entry).CallKept call := by
  refine ⟨fun generation awaited => awaiting_advance moved (known.awaiting generation awaited),
    known.rejected, ?_, ?_, ?_⟩
  · intro ack asked waiting
    obtain ⟨unsent, undeferred⟩ := known.unreacted ack asked waiting
    refine ⟨?_, fun member => undeferred (mem_deferred_advance member)⟩
    intro member
    exact (mem_sent_advance member).elim unsent undeferred
  · intro ack asked waiting isOpen persisted
    have before := (isOpen_advance moved isOpen).1
    change ack.stamp ≤ ite _ _ _ at persisted
    split at persisted
    · rename_i wrote
      have idle := calm (.inl wrote)
      cases awaited : call.task.awaited with
      | none => simp [SaveCall.isDue, asked, waiting, awaited] at idle
      | some generation =>
          have late : state.account.outcomes.length ≤ generation := by
            simpa [SaveCall.isDue, asked, waiting, awaited] using idle
          obtain ⟨current, runs⟩ := (known.awaiting generation awaited).resolve_left
            (Nat.not_lt.mpr late)
          rcases moved.promise with ⟨same, running⟩ | ⟨_, none, _⟩
          · refine .inr ⟨generation, awaited, .inr ⟨?_, running runs, if_pos wrote⟩⟩
            exact current.trans (congrArg List.length same.symm)
          · rw [none] at wrote
            cases wrote
    · exact (known.waits ack asked waiting before persisted).advance kept.books moved
        (fun failed => calm (.inr failed)) asked waiting
  · intro ack asked reacted isOpen
    obtain ⟨before, live⟩ := isOpen_advance moved isOpen
    have stays : (state.advance site calls entry).deferred =
        if state.account.saves < site.session.account.saves then
          state.deferred.filter fun key => !state.isOpen key.socket
        else state.deferred := by
      change ite _ _ _ = _
      rw [live, Bool.and_false]
      rfl
    rw [stays]
    change List.count _ (ite _ _ _) = _ ∧ _ ∨ List.count _ (ite _ _ _) = _ ∧ _ ∧ ite _ _ _ < _
    by_cases wrote : entry.ending = some .wrote
    · rw [if_pos (moved.saves_lt_iff.mpr wrote), if_pos (moved.saves_lt_iff.mpr wrote),
        if_pos wrote]
      left
      have released : ack.key ∉ state.deferred.filter fun key => !state.isOpen key.socket := by
        intro member
        have shut := (List.mem_filter.mp member).2
        rw [before] at shut
        cases shut
      refine ⟨?_, released⟩
      rw [List.count_append]
      rcases known.reacted ack asked reacted before with ⟨once, free⟩ | ⟨never, waiting, _⟩
      · rw [once, List.count_eq_zero.mpr fun member => free (List.mem_filter.mp member).1]
      · rw [never, Nat.zero_add]
        refine List.count_eq_one_of_mem (kept.deferredOnce.filter _) ?_
        exact List.mem_filter.mpr ⟨waiting, before⟩
    · have silent := fun told => wrote (moved.saves_lt_iff.mp told)
      rw [if_neg silent, if_neg silent, if_neg wrote]
      exact known.reacted ack asked reacted before

theorem Kept.advance {state : Reporting R} {site : Site R} {calls : List SaveCall}
    {entry : SaveEntry} (kept : state.Kept)
    (moved : state.account.Moves site.session.account entry)
    (allowed : ¬ entry.Misleads state.books state.account)
    (keys : ∀ (first second : Nat) (call other : SaveCall) (key : AckKey),
      calls[first]? = some call → calls[second]? = some other →
        call.key = some key → other.key = some key → first = second)
    (grows : ∀ key ∈ state.calls.filterMap SaveCall.key, key ∈ calls.filterMap SaveCall.key)
    (known : ∀ call ∈ calls, (state.advance site calls entry).CallKept call) :
    (state.advance site calls entry).Kept := by
  refine ⟨kept.books.moves moved allowed, keys, ?_, ?_, ?_, known⟩
  · intro key member
    rcases mem_sent_advance member with sent | deferred
    · exact grows key (kept.sent key sent)
    · exact grows key (kept.deferred key deferred)
  · intro key member
    exact grows key (kept.deferred key (mem_deferred_advance member))
  · change List.Nodup (ite _ _ (ite _ _ _))
    split
    · exact List.nodup_nil
    · split
      · exact kept.deferredOnce.filter _
      · exact kept.deferredOnce

theorem not_misleads_none {books : SaveBooks} {account : Account} {entry : SaveEntry}
    (ending : entry.ending = none) (checked : entry.checked = none) :
    ¬ entry.Misleads books account := by
  unfold SaveEntry.Misleads
  rw [ending, checked]
  exact id

/-- A flush that does not retry in vain does not mislead. -/
theorem not_misleads_retry {state : Reporting R} {session : Session R}
    (allowed : ¬ state.RetriesDeleted)
    (retried : session = state.site.session ∨
      state.account.error = true ∧ session = state.site.session.requestPersist)
    {fires captures : Bool} :
    ¬ SaveEntry.Misleads ⟨fires, captures, state.site.session.startEnding session, none⟩
      state.books state.account := by
  rcases state.site.session.startEnding_cases session with none | ⟨skipped, idle⟩
  · exact not_misleads_none none rfl
  · rcases retried with rfl | ⟨_, rfl⟩
    · rw [Session.startEnding_same rfl] at skipped
      cases skipped
    · have gone : state.account.deleted = true := by
        cases deleted : state.site.session.deleted with
        | true => exact deleted
        | false =>
            rw [Session.startEnding_requestPersist rfl deleted] at skipped
            cases skipped
      rw [skipped]
      rintro (⟨runs, _⟩ | active)
      · exact absurd (runs.symm.trans idle) (by decide)
      · exact allowed ⟨idle, gone, active⟩

/-- A step of the session that is not excluded does not mislead. -/
theorem not_misleads_session {state : Reporting R} {site : Site R} {label : SessionLabel R}
    (allowed : ¬ state.Misreports (.session label))
    (stepped : (sessionMachine R).step state.site label = some site) :
    ¬ (state.site.saveEntry site label).Misleads state.books state.account := by
  cases label with
  | update update attribution =>
      dsimp only [sessionMachine] at stepped
      split at stepped
      · rename_i ready
        obtain rfl := Option.some.inj stepped
        exact not_misleads_none
          (Session.startEnding_applyUpdate (Bool.eq_false_iff.mpr ready.2) update attribution) rfl
      · cases stepped
  | edit content attribution =>
      dsimp only [sessionMachine] at stepped
      split at stepped
      · rename_i ready
        obtain rfl := Option.some.inj stepped
        exact not_misleads_none
          (Session.startEnding_applyContent (Bool.eq_false_iff.mpr ready.2) content attribution) rfl
      · cases stepped
  | retry =>
      dsimp only [sessionMachine] at stepped
      split at stepped
      · rename_i failed
        obtain rfl := Option.some.inj stepped
        exact not_misleads_retry allowed (.inr ⟨failed, rfl⟩)
      · cases stepped
  | persist io =>
      obtain ⟨⟨session, disk⟩, persisted, rfl⟩ := Option.map_eq_some_iff.mp stepped
      exact (not_or.mp allowed).1
  | startCheck =>
      obtain ⟨session, started, rfl⟩ := Option.map_eq_some_iff.mp stepped
      have persist := congrArg Session.Schedule.persist (Session.schedule_startCheck started)
      exact not_misleads_none (Session.startEnding_same persist) rfl
  | check io =>
      obtain ⟨⟨session, disk⟩, checked, rfl⟩ := Option.map_eq_some_iff.mp stepped
      have persist := congrArg Session.Schedule.persist (Session.schedule_checkStep checked)
      unfold Site.saveEntry
      dsimp only
      rw [Session.startEnding_same persist]
      exact allowed
  | external content =>
      obtain rfl := Option.some.inj stepped
      exact not_misleads_none (Session.startEnding_same rfl) rfl

/-- A materialization that succeeds or fails is a step of the loop. -/
theorem calm_session {state : Reporting R} {site : Site R} {label : SessionLabel R}
    (allowed : ¬ state.Misreports (.session label)) {call : SaveCall}
    (member : call ∈ state.calls)
    (ended : (state.site.saveEntry site label).ending = some .wrote ∨
      (state.site.saveEntry site label).ending = some .failed) :
    call.isDue state.account.outcomes = false := by
  have started : ¬ (state.site.session.startEnding site.session = some .wrote ∨
      state.site.session.startEnding site.session = some .failed) := by
    rcases state.site.session.startEnding_cases site.session with none | ⟨skipped, _⟩
    · rw [none]
      simp
    · rw [skipped]
      simp
  cases label with
  | persist io =>
      have quiet := not_and.mp (not_or.mp allowed).2 ended
      by_contra due
      exact quiet (List.any_eq_true.mpr ⟨call, member, by simpa using due⟩)
  | _ => exact absurd ended started

/-- A call of `flush` that is not made for an acked update. -/
theorem CallKept.plain {state : Reporting R} {task : FlushTask} {waited : Option Bool}
    (awaiting : ∀ generation, task.awaited = some generation →
      generation < state.account.outcomes.length ∨
        generation = state.account.outcomes.length ∧ state.account.running = true)
    (rejected : task = .rejected → waited = some true) : state.CallKept ⟨task, waited, none⟩ :=
  ⟨awaiting, rejected, nofun, nofun, nofun⟩

theorem Kept.session {state : Reporting R} {site : Site R} {label : SessionLabel R}
    (kept : state.Kept) (allowed : ¬ state.Misreports (.session label))
    (stepped : (sessionMachine R).step state.site label = some site) :
    (state.advance site state.calls (state.site.saveEntry site label)).Kept := by
  have moved := Site.moves_saveEntry stepped
  refine kept.advance moved (not_misleads_session allowed stepped) kept.keys (fun _ => id) ?_
  intro call member
  exact (kept.calls call member).advance kept moved (calm_session allowed member)

/-- A flush persists nothing by itself. -/
theorem books_flushed (state : Reporting R) (session : Session R) (calls : List SaveCall)
    (fires : Bool) :
    (state.flushed session calls fires).books.persisted = state.books.persisted ∧
      (state.flushed session calls fires).books.loopSaved =
        (state.books.loopSaved && state.account.running) := by
  have other : state.site.session.startEnding session ≠ some .wrote := by
    rcases state.site.session.startEnding_cases session with none | ⟨skipped, _⟩
    · rw [none]
      nofun
    · rw [skipped]
      nofun
  exact ⟨if_neg other, if_neg other⟩

/-- The calls that are not touched by a flush. -/
theorem Kept.untouched {state : Reporting R} {session : Session R} {calls : List SaveCall}
    {fires : Bool} {call : SaveCall} (kept : state.Kept) (member : call ∈ state.calls)
    (moved : state.account.Moves session.account
      ⟨fires, state.site.session.captures session, state.site.session.startEnding session, none⟩) :
    (state.flushed session calls fires).CallKept call := by
  refine (kept.calls call member).advance kept moved ?_
  intro ended
  rcases state.site.session.startEnding_cases session with none | ⟨skipped, _⟩
  · rw [none] at ended
    rcases ended with ended | ended <;> cases ended
  · rw [skipped] at ended
    rcases ended with ended | ended <;> cases ended

/-- A further call keeps the keys distinct. -/
theorem Kept.keys_append {state : Reporting R} (kept : state.Kept) {added : SaveCall}
    (fresh : ∀ key, added.key = some key → key ∉ state.calls.filterMap SaveCall.key)
    (first second : Nat) (call other : SaveCall) (key : AckKey)
    (here : (state.calls ++ [added])[first]? = some call)
    (there : (state.calls ++ [added])[second]? = some other)
    (callKey : call.key = some key) (otherKey : other.key = some key) : first = second := by
  have known : ∀ (index : Nat) (call : SaveCall), state.calls[index]? = some call →
      call.key = some key → key ∈ state.calls.filterMap SaveCall.key :=
    fun _ call found same => List.mem_filterMap.mpr ⟨call, List.mem_of_getElem? found, same⟩
  have placed : ∀ (index : Nat) (call : SaveCall),
      (state.calls ++ [added])[index]? = some call →
      state.calls[index]? = some call ∨ index = state.calls.length ∧ call = added := by
    intro index call found
    rw [List.getElem?_append] at found
    split at found
    · exact .inl found
    · rw [List.getElem?_singleton] at found
      split at found
      · refine .inr ⟨?_, (Option.some.inj found).symm⟩
        omega
      · cases found
  rcases placed first call here with old | ⟨last, rfl⟩
  · rcases placed second other there with before | ⟨_, rfl⟩
    · exact kept.keys first second call other key old before callKey otherKey
    · exact absurd (known first call old callKey) (fresh key otherKey)
  · rcases placed second other there with before | ⟨end_, _⟩
    · exact absurd (known second other before otherKey) (fresh key callKey)
    · rw [last, end_]

theorem Kept.flush {state : Reporting R} (kept : state.Kept) (allowed : ¬ state.RetriesDeleted) :
    (state.flushed state.site.session.flush.1
      (state.calls ++ [⟨state.site.session.flush.2, none, none⟩]) false).Kept := by
  have retried := state.site.session.flush_retries
  have moved := @Session.moves_retries R _ _
    (state.site.session.captures state.site.session.flush.1) retried
  refine kept.advance moved (not_misleads_retry allowed retried) (kept.keys_append nofun) ?_ ?_
  · intro key member
    rw [List.filterMap_append]
    exact List.mem_append_left _ member
  · intro call member
    rcases List.mem_append.mp member with old | new
    · exact kept.untouched old moved
    · rw [List.mem_singleton.mp new]
      rcases state.site.session.flush_awaits with resolved | ⟨awaited, running, _⟩
      · rw [resolved]
        exact .plain nofun nofun
      · refine .plain ?_ ?_
        · intro generation waits
          rw [awaited] at waits
          exact .inr ⟨(Option.some.inj waits).symm, running⟩
        · intro rejected
          rw [rejected] at awaited
          cases awaited

theorem Kept.ackedUpdate {state : Reporting R} (kept : state.Kept) {key : AckKey}
    (fresh : key ∉ state.calls.filterMap SaveCall.key)
    (live : state.site.session.deleted = false) (update : R.Update)
    (attribution : Option R.Attribution) :
    (state.flushed (state.site.session.applyUpdate update attribution).flush.1
      (state.calls ++ [⟨(state.site.session.applyUpdate update attribution).flush.2, none,
        some ⟨key, if R.firesUpdate state.site.session.doc update then state.books.applied + 1
          else state.books.applied, false⟩⟩])
      (R.firesUpdate state.site.session.doc update)).Kept := by
  have moved := @Session.moves_ackedUpdate R _ live update attribution
    (state.site.session.captures (state.site.session.applyUpdate update attribution).flush.1)
  have none := Session.startEnding_ackedUpdate live update attribution
  have sound := kept.books
  refine kept.advance moved (not_misleads_none none rfl) (kept.keys_append ?_) ?_ ?_
  · intro other same
    obtain rfl := Option.some.inj same
    exact fresh
  · intro key member
    rw [List.filterMap_append]
    exact List.mem_append_left _ member
  · intro call member
    rcases List.mem_append.mp member with old | new
    · exact kept.untouched old moved
    · rw [List.mem_singleton.mp new]
      have waits := (state.site.session.applyUpdate update attribution).flush_awaits
      refine ⟨?_, ?_, ?_, ?_, ?_⟩
      · intro generation waited
        rcases waits with resolved | ⟨awaited, running, _⟩
        · rw [resolved] at waited
          cases waited
        · rw [awaited] at waited
          exact .inr ⟨(Option.some.inj waited).symm, running⟩
      · intro (rejected : (state.site.session.applyUpdate update attribution).flush.2 = .rejected)
        rcases waits with resolved | ⟨awaited, _⟩
        · rw [resolved] at rejected
          cases rejected
        · rw [rejected] at awaited
          cases awaited
      · intro ack asked _
        obtain rfl := Option.some.inj asked
        refine ⟨?_, ?_⟩
        · intro member
          rcases mem_sent_advance member with sent | deferred
          · exact fresh (kept.sent key sent)
          · exact fresh (kept.deferred key deferred)
        · intro member
          exact fresh (kept.deferred key (mem_deferred_advance member))
      · intro ack asked _ _ persisted
        obtain rfl := Option.some.inj asked
        have captured_le := sound.captured_le
        have persisted_le := sound.persisted_le
        have below := Nat.le_trans persisted (Nat.le_of_eq (books_flushed state _ _ _).1)
        dsimp only at below
        cases fires : R.firesUpdate state.site.session.doc update with
        | true =>
            rw [fires, if_pos rfl] at below
            omega
        | false =>
            rw [fires, if_neg Bool.false_ne_true] at below
            have unfailed : state.account.persistFailed ≠ true := by
              intro failed
              have unsaved := sound.failed failed
              omega
            rcases waits with resolved | ⟨awaited, running, cause⟩
            · exact .inl resolved
            · have same := Session.account_applyUpdate live update attribution
              rw [fires, if_neg Bool.false_ne_true] at same
              rw [same] at cause
              have runs : state.account.running = true := by
                rcases cause with runs | failed
                · exact runs
                · exact absurd (sound.error.symm.trans failed) unfailed
              refine .inr ⟨_, awaited, .inr ⟨rfl, running, ?_⟩⟩
              refine (books_flushed state _ _ _).2.trans ?_
              rw [runs, Bool.and_true]
              by_contra unsaved
              have more := sound.unsaved runs (Bool.eq_false_iff.mpr unsaved)
              omega
      · intro ack asked reacted
        obtain rfl := Option.some.inj asked
        cases reacted

/-- Another call at the same place, for the same update, keeps the keys. -/
theorem Kept.keys_set {state : Reporting R} (kept : state.Kept) {index : Nat}
    {call next : SaveCall} (found : state.calls[index]? = some call)
    (same : next.key = call.key) (first second : Nat) (one other : SaveCall) (key : AckKey)
    (here : (state.calls.set index next)[first]? = some one)
    (there : (state.calls.set index next)[second]? = some other)
    (oneKey : one.key = some key) (otherKey : other.key = some key) : first = second := by
  have placed : ∀ (place : Nat) (one : SaveCall), (state.calls.set index next)[place]? = some one →
      ∃ old, state.calls[place]? = some old ∧ old.key = one.key := by
    intro place one set
    rw [List.getElem?_set] at set
    split at set
    · rename_i at_
      split at set
      · obtain rfl := Option.some.inj set
        rw [← at_]
        exact ⟨call, found, same.symm⟩
      · cases set
    · exact ⟨one, set, rfl⟩
  obtain ⟨old, before, oldKey⟩ := placed first one here
  obtain ⟨prior, after, priorKey⟩ := placed second other there
  exact kept.keys first second old prior key before after (oldKey.trans oneKey)
    (priorKey.trans otherKey)

theorem mem_keys_set {calls : List SaveCall} {index : Nat} {call next : SaveCall}
    (found : calls[index]? = some call) (same : next.key = call.key) {key : AckKey}
    (member : key ∈ calls.filterMap SaveCall.key) :
    key ∈ (calls.set index next).filterMap SaveCall.key := by
  obtain ⟨one, listed, oneKey⟩ := List.mem_filterMap.mp member
  obtain ⟨place, at_⟩ := List.mem_iff_getElem?.mp listed
  by_cases here : index = place
  · subst here
    rw [found] at at_
    obtain rfl := Option.some.inj at_
    have bound := (List.getElem?_eq_some_iff.mp found).1
    refine List.mem_filterMap.mpr ⟨next, List.mem_set bound next, same.trans oneKey⟩
  · refine List.mem_filterMap.mpr ⟨one, ?_, oneKey⟩
    refine List.mem_of_getElem? (i := place) ?_
    rw [List.getElem?_set_ne here]
    exact at_

theorem Kept.resume {state : Reporting R} (kept : state.Kept) (allowed : ¬ state.RetriesDeleted)
    {index : Nat} {call : SaveCall} (found : state.calls[index]? = some call)
    {session : Session R} {task : FlushTask}
    (flushed : state.site.session.flushStep call.task = some (session, task)) :
    (state.flushed session
      (state.calls.set index { call with
        task := task
        waited := call.task.awaited.bind fun generation => state.books.verdicts[generation]? })
      false).Kept := by
  have retried := Session.flushStep_retries flushed
  have moved := @Session.moves_retries R _ _ (state.site.session.captures session) retried
  have member := List.mem_of_getElem? found
  have known := kept.calls call member
  obtain ⟨generation, awaited, settled⟩ := Session.flushStep_settled flushed
  have same : SaveCall.key { call with
      task := task
      waited := call.task.awaited.bind fun generation => state.books.verdicts[generation]? } =
      call.key := rfl
  refine kept.advance moved (not_misleads_retry allowed retried) (kept.keys_set found same)
    (fun _ => mem_keys_set found same) ?_
  intro other listed
  rcases List.mem_or_eq_of_mem_set listed with old | rfl
  · exact kept.untouched old moved
  · have after := @Kept.untouched R state session (state.calls.set index call) false call kept
      member moved
    refine ⟨?_, ?_, after.unreacted, ?_, after.reacted⟩
    · intro place waits
      rcases settled with ⟨_, rfl⟩ | ⟨_, rfl | ⟨_, retries, running⟩⟩
      · cases waits
      · cases waits
      · rw [retries] at waits
        exact .inr ⟨(Option.some.inj waits).symm, running⟩
    · intro (rejected : task = .rejected)
      rcases settled with ⟨outcome, _⟩ | ⟨_, rfl | ⟨_, retries, _⟩⟩
      · dsimp only
        rw [awaited]
        exact kept.books.verdicts generation outcome
      · cases rejected
      · rw [rejected] at retries
        cases retries
    · intro ack asked waiting isOpen persisted
      have before := (@isOpen_advance R state { state.site with session := session } _ _ moved _
        isOpen).1
      have below := Nat.le_trans persisted (Nat.le_of_eq (books_flushed state _ _ _).1)
      have onItsWay := known.waits ack asked waiting before below
      have unrejected : state.account.outcomes[generation]? = some false ∧
          state.account.persistFailed = false := by
        rcases onItsWay with resolved | ⟨place, waits, outcome | ⟨current, _⟩⟩
        · rw [resolved] at awaited
          cases awaited
        · rw [awaited] at waits
          obtain rfl := Option.some.inj waits
          exact outcome
        · rw [awaited] at waits
          obtain rfl := Option.some.inj waits
          have absent : state.site.session.account.outcomes[generation]? = none :=
            List.getElem?_eq_none (Nat.le_of_eq current.symm)
          rw [absent] at settled
          rcases settled with ⟨impossible, _⟩ | ⟨impossible, _⟩ <;> cases impossible
      rcases settled with ⟨outcome, _⟩ | ⟨_, rfl | ⟨failed, _⟩⟩
      · exact absurd (unrejected.1.symm.trans outcome) (by decide)
      · exact .inl rfl
      · exact absurd ((kept.books.error.symm.trans failed).symm.trans unrejected.2) (by decide)

/-- A call at another place is about another update. -/
theorem Kept.key_ne {state : Reporting R} (kept : state.Kept) {index : Nat}
    {call next other : SaveCall} {key : AckKey} (found : state.calls[index]? = some call)
    (callKey : call.key = some key) (listed : other ∈ state.calls.set index next)
    (different : other ≠ next) : other ∈ state.calls ∧ other.key ≠ some key := by
  obtain ⟨place, at_⟩ := List.mem_iff_getElem?.mp listed
  rw [List.getElem?_set] at at_
  split at at_
  · split at at_
    · exact absurd (Option.some.inj at_).symm different
    · cases at_
  · rename_i elsewhere
    refine ⟨List.mem_of_getElem? at_, fun same => elsewhere ?_⟩
    exact kept.keys index place call other key found at_ callKey same

/-- A call does not notice what is sent or deferred for other updates. -/
theorem CallKept.elsewhere {state : Reporting R} {call : SaveCall} (known : state.CallKept call)
    {calls : List SaveCall} {sent deferred : List AckKey}
    (same : ∀ ack, call.ack = some ack → sent.count ack.key = state.sent.count ack.key ∧
      (ack.key ∈ deferred ↔ ack.key ∈ state.deferred)) :
    CallKept { state with calls := calls, sent := sent, deferred := deferred } call := by
  refine ⟨known.awaiting, known.rejected, ?_, known.waits, ?_⟩
  · intro ack asked waiting
    obtain ⟨unsent, undeferred⟩ := known.unreacted ack asked waiting
    obtain ⟨counts, deferral⟩ := same ack asked
    refine ⟨?_, fun member => undeferred (deferral.mp member)⟩
    rw [← List.count_eq_zero] at unsent ⊢
    exact counts.trans unsent
  · intro ack asked reacted isOpen
    obtain ⟨counts, deferral⟩ := same ack asked
    dsimp only
    rw [counts, deferral]
    exact known.reacted ack asked reacted isOpen

/-- A reaction of a socket touches only what is known of its own update. -/
theorem Kept.reacts {state : Reporting R} (kept : state.Kept) {index : Nat} {call : SaveCall}
    {ack : AckRequest} {sent deferred : List AckKey} (found : state.calls[index]? = some call)
    (asked : call.ack = some ack)
    (grows : ∀ key, key ∈ sent ∨ key ∈ deferred →
      key ∈ state.sent ∨ key ∈ state.deferred ∨ key = ack.key)
    (once : deferred.Nodup)
    (others : ∀ key, key ≠ ack.key → sent.count key = state.sent.count key ∧
      (key ∈ deferred ↔ key ∈ state.deferred))
    (own : state.isOpen ack.key.socket = true →
      sent.count ack.key = 1 ∧ ack.key ∉ deferred ∨
        sent.count ack.key = 0 ∧ ack.key ∈ deferred ∧ state.books.persisted < ack.stamp) :
    Kept { state with
      calls := state.calls.set index (call.markReacted ack)
      sent := sent
      deferred := deferred } := by
  have known := kept.calls call (List.mem_of_getElem? found)
  have callKey : call.key = some ack.key := congrArg (Option.map AckRequest.key) asked
  have same : (call.markReacted ack).key = call.key := callKey.symm
  have listed : ∀ key, key ∈ sent ∨ key ∈ deferred →
      key ∈ (state.calls.set index (call.markReacted ack)).filterMap SaveCall.key := by
    intro key member
    apply mem_keys_set found same
    rcases grows key member with before | before | rfl
    · exact kept.sent key before
    · exact kept.deferred key before
    · exact List.mem_filterMap.mpr ⟨call, List.mem_of_getElem? found, callKey⟩
  refine ⟨kept.books, kept.keys_set found same, fun key member => listed key (.inl member),
    fun key member => listed key (.inr member), once, ?_⟩
  intro other member
  by_cases here : other = call.markReacted ack
  · rw [here]
    refine ⟨known.awaiting, known.rejected, ?_, ?_, ?_⟩
    · intro marked found waiting
      obtain rfl := Option.some.inj found
      cases waiting
    · intro marked found waiting
      obtain rfl := Option.some.inj found
      cases waiting
    · intro marked found _ isOpen
      obtain rfl := Option.some.inj found
      exact own isOpen
  · obtain ⟨old, different⟩ := kept.key_ne found callKey member here
    refine (kept.calls other old).elsewhere ?_
    intro its asks
    refine others its.key fun equal => different ?_
    rw [← equal]
    exact congrArg (Option.map AckRequest.key) asks

theorem Kept.react {state next : Reporting R} (kept : state.Kept) {index : Nat}
    (reacted : state.react index = some next) : next.Kept := by
  unfold Reporting.react at reacted
  split at reacted
  · cases reacted
  · rename_i call found
    have known := kept.calls call (List.mem_of_getElem? found)
    split at reacted
    · rename_i ack resolved asked
      split at reacted
      · cases reacted
      · rename_i waiting
        obtain rfl := Option.some.inj reacted
        obtain ⟨unsent, undeferred⟩ :=
          known.unreacted ack asked (Bool.eq_false_iff.mpr waiting)
        refine kept.reacts found asked ?_ kept.deferredOnce ?_ ?_
        · rintro key (member | member)
          · split at member
            · rcases List.mem_append.mp member with old | new
              · exact .inl old
              · exact .inr (.inr (List.mem_singleton.mp new))
            · exact .inl member
          · exact .inr (.inl member)
        · intro key different
          refine ⟨?_, Iff.rfl⟩
          split
          · rw [List.count_append, List.count_singleton, if_neg]
            · rfl
            · simpa using Ne.symm different
          · rfl
        · intro isOpen
          left
          rw [if_pos isOpen, List.count_append, List.count_eq_zero.mpr unsent]
          exact ⟨by simp, undeferred⟩
    · rename_i ack rejected asked
      split at reacted
      · cases reacted
      · rename_i waiting
        obtain rfl := Option.some.inj reacted
        obtain ⟨unsent, undeferred⟩ :=
          known.unreacted ack asked (Bool.eq_false_iff.mpr waiting)
        rw [if_neg undeferred]
        refine kept.reacts found asked ?_ ?_ ?_ ?_
        · rintro key (member | member)
          · exact .inl member
          · rcases List.mem_append.mp member with old | new
            · exact .inr (.inl old)
            · exact .inr (.inr (List.mem_singleton.mp new))
        · exact List.nodup_append.mpr ⟨kept.deferredOnce, List.nodup_singleton _, by
            rintro key member _ last rfl
            exact undeferred (List.mem_singleton.mp last ▸ member)⟩
        · intro key different
          refine ⟨rfl, ?_⟩
          rw [List.mem_append, List.mem_singleton]
          exact or_iff_left different
        · intro isOpen
          right
          refine ⟨List.count_eq_zero.mpr unsent,
            List.mem_append_right _ (List.mem_singleton.mpr rfl), ?_⟩
          by_contra persisted
          exact known.resolves asked (Bool.eq_false_iff.mpr waiting) isOpen
            (Nat.not_lt.mp persisted) rejected
    · cases reacted

theorem Kept.close {state : Reporting R} (kept : state.Kept) (socket : Nat) :
    Kept { state with
      closed := socket :: state.closed
      deferred := state.deferred.filter fun key => key.socket ≠ socket } := by
  have opens : ∀ other, Reporting.isOpen { state with
        closed := socket :: state.closed
        deferred := state.deferred.filter fun key => key.socket ≠ socket } other = true →
      state.isOpen other = true ∧ other ≠ socket := by
    intro other isOpen
    unfold Reporting.isOpen at *
    rw [Bool.and_eq_true, decide_eq_true_eq, List.mem_cons, not_or] at isOpen
    rw [Bool.and_eq_true, decide_eq_true_eq]
    exact ⟨⟨isOpen.1, isOpen.2.2⟩, isOpen.2.1⟩
  refine ⟨kept.books, kept.keys, kept.sent,
    fun key member => kept.deferred key (List.mem_filter.mp member).1,
    kept.deferredOnce.filter _, ?_⟩
  intro call member
  have known := kept.calls call member
  refine ⟨known.awaiting, known.rejected, ?_, ?_, ?_⟩
  · intro ack asked waiting
    obtain ⟨unsent, undeferred⟩ := known.unreacted ack asked waiting
    exact ⟨unsent, fun member => undeferred (List.mem_filter.mp member).1⟩
  · intro ack asked waiting isOpen persisted
    exact known.waits ack asked waiting (opens _ isOpen).1 persisted
  · intro ack asked reacted isOpen
    obtain ⟨before, other⟩ := opens _ isOpen
    rcases known.reacted ack asked reacted before with ⟨once, free⟩ | ⟨never, waiting, unsaved⟩
    · exact .inl ⟨once, fun member => free (List.mem_filter.mp member).1⟩
    · exact .inr ⟨never, List.mem_filter.mpr ⟨waiting, by simpa using other⟩, unsaved⟩

theorem Kept.step {state next : Reporting R} {label : ReportLabel R} (kept : state.Kept)
    (allowed : ¬ state.Misreports label)
    (stepped : (reportMachine R).step state label = some next) : next.Kept := by
  cases label with
  | session label =>
      obtain ⟨site, moved, rfl⟩ := Option.map_eq_some_iff.mp stepped
      exact kept.session allowed moved
  | flush =>
      obtain rfl := Option.some.inj stepped
      exact kept.flush allowed
  | ackedUpdate key update attribution =>
      dsimp only [reportMachine] at stepped
      split at stepped
      · rename_i ready
        obtain rfl := Option.some.inj stepped
        have live : state.site.session.deleted = false := by
          have isOpen := ready.2
          unfold Reporting.isOpen at isOpen
          rw [Bool.and_eq_true, Bool.not_eq_true'] at isOpen
          exact isOpen.1
        exact kept.ackedUpdate allowed live update attribution
      · cases stepped
  | resume index =>
      dsimp only [reportMachine] at stepped
      split at stepped
      · cases stepped
      · rename_i call found
        obtain ⟨⟨session, task⟩, flushed, rfl⟩ := Option.map_eq_some_iff.mp stepped
        exact kept.resume allowed found flushed
  | react index => exact kept.react stepped
  | close socket =>
      obtain rfl := Option.some.inj stepped
      exact kept.close socket

end Reporting

/-- **Exact save reports.** Take any run of an open session with its flushes and sockets,
from a state without a running persist loop or a recorded failure, in which

* no materialization returns in a loop that has already failed, and none fails in a loop
  that has already persisted a text;
* none ends without a write, and no check reconciles, while a failure is active;
* a materialization succeeds or fails only when every socket has reacted to the promises
  settled before, as the event loop sees to; and
* no socket uses an id twice.

Then every rejected flush has waited for a materialization that failed last, the active
failure event tells of the last materialization, and every acked update that has been
persisted on an open socket gets exactly one acknowledgement. -/
theorem saves_reported {R : Runtime} {source : Site R} {target : Reporting R}
    {labels : List (ReportLabel R)} (idle : source.session.persist = .idle)
    (unfailed : source.session.persistFailed = false)
    (error : source.session.persistFailureError = none)
    (inactive : source.session.activePersistFailureEvent = none)
    (run : (reportMachine R).Run (fun state label => ¬ state.Misreports label)
      ⟨source, [], [], [], [], SaveBooks.start source.session.persistOutcomes⟩ labels target) :
    target.Exact := by
  have start : Reporting.Kept
      ⟨source, [], [], [], [], SaveBooks.start source.session.persistOutcomes⟩ := by
    have rests : source.session.account.running = false := by
      rw [Session.account, idle]
      rfl
    have stopped : ∀ {goal : Prop}, source.session.account.running = true → goal :=
      fun running => absurd (rests.symm.trans running) (by decide)
    refine ⟨⟨?_, ?_, ?_, Nat.le_refl _, Nat.le_refl _, stopped, ?_, stopped, stopped, rfl,
      fun _ => id⟩, ?_, ?_, ?_, List.nodup_nil, ?_⟩
    · change source.session.activePersistFailureEvent.isSome = false
      rw [inactive]
      rfl
    · intro (active : source.session.activePersistFailureEvent.isSome = true)
      rw [inactive] at active
      cases active
    · change source.session.persistFailureError.isSome = source.session.persistFailed
      rw [error, unfailed]
      rfl
    · intro (failed : source.session.persistFailed = true)
      rw [unfailed] at failed
      cases failed
    · intro first second call other key found
      cases found
    all_goals
      intro entry listed
      cases listed
  have keep : ∀ (state : Reporting R) label next, ¬ state.Misreports label →
      (reportMachine R).step state label = some next → state.Kept → next.Kept :=
    fun _ _ _ allowed stepped kept => kept.step allowed stepped
  exact (run.invariant keep start).exact

/-- The note `n.md` with its sidecar, opened on a content, with empty books. -/
def Replica.reporting (content : JsString) : Reporting replicaRuntime :=
  ⟨openedSite content, [], [], [], [], SaveBooks.start []⟩

/-- The read of a first materialization fails; a second one, for a letter typed since,
persists both letters. The flush of the acked letter is rejected although the last
materialization has succeeded, and its acknowledgement is deferred to an event that has
already been sent. -/
theorem ack_stranded :
    ∃ (labels : List (ReportLabel replicaRuntime)) (target : Reporting replicaRuntime),
      (reportMachine replicaRuntime).Run (fun _ _ => True) (Replica.reporting [97]) labels
        target ∧
      target.site.session.persist.isIdle = true ∧ target.isOpen 0 = true ∧
      target.calls.map (fun call => (call.task, call.waited)) = [(.rejected, some false)] ∧
      target.calls.map (fun call => call.ack.map fun ack => (ack.key, ack.stamp, ack.reacted)) =
        [some (⟨0, [49]⟩, 1, true)] ∧
      target.books.persisted = 2 ∧ target.sent = [] := by
  refine ⟨[.ackedUpdate ⟨0, [49]⟩ (.insert 1 1 [98]) none, .session (.persist .fail),
    .session (.update (.insert 2 2 [99]) none), .session (.persist .ok), .session (.persist .ok),
    .session (.persist .ok), .session (.persist .ok), .session (.persist .ok),
    .session (.persist .ok), .session (.persist .ok), .session (.persist .ok), .resume 0,
    .react 0], _, Machine.evaluate_sound rfl, by decide, by decide, by decide, by decide,
    by decide, by decide⟩

/-- A save fails and its acknowledgement is deferred; the retry of the next flush
persists the letter and releases the acknowledgement. -/
theorem saves_reported_retry :
    ∃ target, (reportMachine replicaRuntime).Run (fun state label => ¬ state.Misreports label)
        (Replica.reporting [97])
        [.ackedUpdate ⟨0, [49]⟩ (.insert 1 1 [98]) none, .session (.persist .fail),
          .session (.persist .ok), .session (.persist .ok), .resume 0, .react 0, .flush,
          .session (.persist .ok), .session (.persist .ok), .session (.persist .ok),
          .session (.persist .ok), .session (.persist .ok)] target ∧
      target.books.persisted = 1 ∧ target.sent = [⟨0, [49]⟩] ∧ target.Exact := by
  have run : (reportMachine replicaRuntime).Run (fun state label => ¬ state.Misreports label)
      (Replica.reporting [97])
      [.ackedUpdate ⟨0, [49]⟩ (.insert 1 1 [98]) none, .session (.persist .fail),
        .session (.persist .ok), .session (.persist .ok), .resume 0, .react 0, .flush,
        .session (.persist .ok), .session (.persist .ok), .session (.persist .ok),
        .session (.persist .ok), .session (.persist .ok)] _ := Machine.evaluate_sound rfl
  exact ⟨_, run, by decide, by decide, saves_reported rfl rfl rfl rfl run⟩

end Kb1Daemon
