import Kb1Daemon.Session.Load
import Kb1Daemon.Session.Persist

/-! # The calls on a session

The vault service and the sockets reach a session through its asynchronous
methods. A call is a request together with the await at which it is suspended;
between two awaits it runs without interruption. The calls of one session share
its open, its document and its persist loop, and any of them may be the next to
continue.

A cold session is loaded once for all calls that wait for it. Before it is open
nothing else touches the session, so the load is one step here.
-/

namespace Kb1Daemon

/-- The await at which `flush` stands. A persist promise is named by its place
in `persistOutcomes`. -/
inductive FlushTask where
  | awaitPersist (generation : Nat)
  | awaitRetry (generation : Nat)
  | resolved
  | rejected
  deriving DecidableEq, Repr

namespace Session

variable {R : Runtime}

/-- The place the current persist promise will take in `persistOutcomes`. -/
def generation (session : Session R) : Nat := session.persistOutcomes.length

/-- The second half of `flush`: request a persist again after a failure. -/
def retryFlush (session : Session R) : Session R × FlushTask :=
  if session.persistFailureError.isSome then
    (session.requestPersist, .awaitRetry session.generation)
  else (session, .resolved)

/-- `flush` up to its first await. -/
def flush (session : Session R) : Session R × FlushTask :=
  if session.persist.isIdle then session.retryFlush
  else (session, .awaitPersist session.generation)

/-- `flush` continues once the promise it awaits is settled. -/
def flushStep (session : Session R) : FlushTask → Option (Session R × FlushTask)
  | .awaitPersist generation =>
      match session.persistOutcomes[generation]? with
      | none => none
      | some true => some (session, .rejected)
      | some false => some session.retryFlush
  | .awaitRetry generation =>
      match session.persistOutcomes[generation]? with
      | none => none
      | some true => some (session, .rejected)
      | some false => some (session, .resolved)
  | .resolved | .rejected => none

/-- The state vector of the document, which names the version a reader saw. -/
def currentBaseline (session : Session R) : JsString := R.encodeStateVector session.doc

/-- A flush at most requests a persist. -/
theorem retryFlush_cases (session : Session R) :
    session.retryFlush.1 = session ∨ session.retryFlush.1 = session.requestPersist := by
  unfold retryFlush
  split
  · exact .inr rfl
  · exact .inl rfl

theorem flush_cases (session : Session R) :
    session.flush.1 = session ∨ session.flush.1 = session.requestPersist := by
  unfold flush
  split
  · exact session.retryFlush_cases
  · exact .inl rfl

theorem flushStep_cases {session next : Session R} {task nextTask : FlushTask}
    (stepped : session.flushStep task = some (next, nextTask)) :
    next = session ∨ next = session.requestPersist := by
  have retried := session.retryFlush_cases
  cases task with
  | awaitPersist generation =>
      dsimp only [flushStep] at stepped
      split at stepped
      · cases stepped
      · cases stepped
        exact .inl rfl
      · rw [Option.some.inj stepped] at retried
        exact retried
  | awaitRetry generation =>
      dsimp only [flushStep] at stepped
      split at stepped
      · cases stepped
      · cases stepped
        exact .inl rfl
      · cases stepped
        exact .inl rfl
  | resolved => cases stepped
  | rejected => cases stepped

theorem binding_flush (session : Session R) : session.flush.1.binding = session.binding := by
  rcases session.flush_cases with same | requested
  · rw [same]
  · rw [requested]
    exact binding_of_frame (frame_requestPersist session)

theorem doc_flush (session : Session R) : session.flush.1.doc = session.doc := by
  rcases session.flush_cases with same | requested
  · rw [same]
  · rw [requested, (requestPersist_fields _).1]

end Session

/-- The methods of a session the service and the sockets call. -/
inductive Request (R : Runtime) where
  | readWithBaseline
  | applyContent (content : JsString) (attribution : Option R.Attribution)
  /-- An edit callback may refuse the text it is given. -/
  | applyBaselineEdit (baseline : JsString) (edit : JsString → Option JsString)
      (attribution : Option R.Attribution)
  | applyContentEdit (edit : JsString → JsString) (attribution : Option R.Attribution)
  /-- A socket's update that asks for an acknowledgement. -/
  | ackedUpdate (update : R.Update) (attribution : Option R.Attribution)

/-- Where a call stands. -/
inductive CallTask where
  /-- It awaits `open`. -/
  | opening
  /-- `applyPositionedContent` awaits `open` with the content already computed. -/
  | positioned (content : JsString)
  | flushing (task : FlushTask)
  /-- The acknowledgement waits for the next persisted content. -/
  | deferred
  | returned (content : JsString) (baseline : Option JsString)
  | acked
  /-- Rejected as `stale_doc`. -/
  | stale
  /-- The edit callback has refused the text. -/
  | refused
  | failed
  deriving DecidableEq, Repr

/-- A call on a session. -/
structure Call (R : Runtime) where
  request : Request R
  task : CallTask
  /-- The text its edit callback was given. -/
  handed : Option JsString

namespace Call

variable {R : Runtime}

/-- A call at its next await, or at its end. -/
def standAt (call : Call R) (task : CallTask) : Call R := { call with task := task }

/-- Apply a content and flush. -/
def edit (call : Call R) (session : Session R) (content : JsString)
    (attribution : Option R.Attribution) : Session R × Call R :=
  let flushed := (session.applyContent content attribution).flush
  (flushed.1, call.standAt (.flushing flushed.2))

/-- The part of a call after its first `await this.open()`. -/
def afterOpen (call : Call R) (session : Session R) : Session R × Call R :=
  match call.request with
  | .readWithBaseline =>
      (session, call.standAt (.returned session.currentContent (some session.currentBaseline)))
  | .applyContent content attribution =>
      if session.deleted then (session, call.standAt .failed)
      else call.edit session content attribution
  | .applyBaselineEdit baseline edit attribution =>
      if session.deleted then (session, call.standAt .failed)
      else if baseline ≠ session.currentBaseline then (session, call.standAt .stale)
      else
        match edit session.currentContent with
        | none => (session, { call with task := .refused, handed := some session.currentContent })
        | some content =>
            { call with handed := some session.currentContent }.edit session content attribution
  | .applyContentEdit edit _ =>
      if session.deleted then (session, call.standAt .failed)
      else (session, call.standAt (.positioned (edit session.currentContent)))
  | .ackedUpdate _ _ => (session, call.standAt .failed)

/-- The part of a call after its flush has resolved. -/
def afterFlush (call : Call R) (session : Session R) : Call R :=
  match call.request with
  | .ackedUpdate _ _ => call.standAt .acked
  | .applyContent _ _ => call.standAt (.returned session.currentContent none)
  | _ => call.standAt (.returned session.currentContent (some session.currentBaseline))

/-- The part of a call after its flush has been rejected. -/
def afterFailedFlush (call : Call R) : Call R :=
  match call.request with
  | .ackedUpdate _ _ => call.standAt .deferred
  | _ => call.standAt .failed

/-- The attribution of the edit an `applyPositionedContent` makes. -/
def attribution (call : Call R) : Option R.Attribution :=
  match call.request with
  | .readWithBaseline => none
  | .applyContent _ attribution | .applyBaselineEdit _ _ attribution
  | .applyContentEdit _ attribution | .ackedUpdate _ attribution => attribution

/-- The call continues up to its next await. -/
def resume (call : Call R) (session : Session R) : Option (Session R × Call R) :=
  match call.task with
  | .opening => if session.opened then some (call.afterOpen session) else none
  | .positioned content =>
      if session.deleted then some (session, call.standAt .failed)
      else some (call.edit session content call.attribution)
  | .flushing .resolved => some (session, call.afterFlush session)
  | .flushing .rejected => some (session, call.afterFailedFlush)
  | .flushing task =>
      (session.flushStep task).map fun flushed => (flushed.1, call.standAt (.flushing flushed.2))
  | .deferred | .returned _ _ | .acked | .stale | .refused | .failed => none

/-- A socket hears an event of its session: a persisted content releases the
deferred acknowledgement, a deletion drops it. -/
def hear (call : Call R) (event : SessionEvent R) : Call R :=
  match call.task, event.kind with
  | .deferred, .contentPersisted => call.standAt .acked
  | .deferred, .docDeleted => call.standAt .failed
  | _, _ => call

/-- The open a call waits for has failed. -/
def failOpen (call : Call R) : Call R :=
  match call.task with
  | .opening => call.standAt .failed
  | _ => call

end Call

/-- What an attempt to open finds on the disk when no step of it fails. -/
def Site.openInput {R : Runtime} (site : Site R) : OpenInput where
  createIfMissing := site.session.createMissingOnOpen
  markdown :=
    match site.disk.files site.session.filePath with
    | none => .absent
    | some content => .found content
  createFails := false
  sidecar :=
    match site.session.stateFilePath.bind site.disk.sidecars with
    | none => .absent
    | some sidecar => .found sidecar
  snapshotFails := false

/-- The state the sidecar holds is restored as it is. -/
def Site.restoresValid {R : Runtime} (site : Site R) (content : JsString) : Bool :=
  match Session.readSidecar site.session.stateFilePath site.openInput with
  | .ok sidecar => (Session.hydrateDoc site.session.doc content sidecar).2 = .valid
  | .error _ => false

/-- Load the session from the disk. A missing file is created if that is asked
for, and a state that was not valid is written again. -/
def Site.load {R : Runtime} (site : Site R) : Site R × Except OpenError JsString :=
  match site.session.loadFromFile site.openInput with
  | (session, .error error) => ({ site with session := session }, .error error)
  | (session, .ok content) =>
      let created :=
        if (site.disk.files site.session.filePath).isNone then
          site.disk.write site.session.filePath content
        else site.disk
      let saved :=
        if site.restoresValid content then created
        else created.writeSnapshot (session.snapshot (R.hashContent content))
      (⟨session, saved⟩, .ok content)

/-- A session with the calls made on it. -/
structure Service (R : Runtime) where
  site : Site R
  calls : List (Call R)

/-- The steps of the calls, and those of the session itself. -/
inductive ServiceLabel (R : Runtime) where
  /-- A call arrives and runs up to its first await. -/
  | request (request : Request R)
  /-- The load the calls wait for. -/
  | load
  /-- A call continues. -/
  | resume (index : Nat)
  /-- The persist loop, a check, a client or the world takes a step. -/
  | session (label : SessionLabel R)

namespace Service

variable {R : Runtime}

/-- A call arrives. -/
def request (service : Service R) (request : Request R) : Option (Service R) :=
  let session := service.site.session
  match request with
  | .ackedUpdate update attribution =>
      if session.opened ∧ ¬ session.deleted then
        let flushed := (session.applyUpdate update attribution).flush
        some ⟨{ service.site with session := flushed.1 },
          service.calls ++ [⟨request, .flushing flushed.2, none⟩]⟩
      else none
  | _ =>
      some { service with
        calls := service.calls ++
          [⟨request, if session.deleted then .failed else .opening, none⟩] }

/-- The load runs to its end. -/
def load (service : Service R) : Option (Service R) :=
  if service.site.session.opened ∨ service.site.session.deleted ∨
      ∀ call ∈ service.calls, call.task ≠ .opening then none
  else
    match service.site.load with
    | (site, .ok _) => some { service with site := site }
    | (site, .error _) => some ⟨site, service.calls.map Call.failOpen⟩

/-- The call at a place of the list continues. -/
def resume (service : Service R) (index : Nat) : Option (Service R) :=
  match service.calls[index]? with
  | none => none
  | some call =>
      (call.resume service.site.session).map fun resumed =>
        ⟨{ service.site with session := resumed.1 }, service.calls.set index resumed.2⟩

/-- The sockets hear the events a step has emitted. -/
def hear (before after : Session R) (calls : List (Call R)) : List (Call R) :=
  (after.events.drop before.events.length).foldl
    (fun heard event => heard.map fun call => call.hear event) calls

end Service

/-- The machine of a session and its calls. -/
def serviceMachine (R : Runtime) : Machine (Service R) (ServiceLabel R) where
  step service label :=
    match label with
    | .request request => service.request request
    | .load => service.load
    | .resume index => service.resume index
    | .session label =>
        ((sessionMachine R).step service.site label).map fun site =>
          ⟨site, Service.hear service.site.session site.session service.calls⟩

namespace Call

variable {R : Runtime}

/-- What a call does to the session from one await to the next: nothing, the
request of its flush, or an edit of a session that is not deleted. -/
def Moves (session next : Session R) : Prop :=
  next = session ∨ next = session.requestPersist ∨
    session.deleted = false ∧ ∃ content attribution,
      next = (session.applyContent content attribution).flush.1

/-- The ways in which a call continues. -/
inductive Resumes (session : Session R) : Call R → Session R → Call R → Prop where
  | read {call : Call R} (waits : call.task = .opening) (opened : session.opened = true)
      (request : call.request = .readWithBaseline) :
      Resumes session call session
        (call.standAt (.returned session.currentContent (some session.currentBaseline)))
  | fail {call : Call R} (waits : (call.task = .opening ∧ session.opened = true) ∨
      ∃ content, call.task = .positioned content) :
      Resumes session call session (call.standAt .failed)
  | apply {call : Call R} {content : JsString} {attribution : Option R.Attribution}
      (waits : call.task = .opening) (opened : session.opened = true)
      (request : call.request = .applyContent content attribution)
      (live : session.deleted = false) :
      Resumes session call (call.edit session content attribution).1
        (call.edit session content attribution).2
  | stale {call : Call R} {baseline : JsString} {edit : JsString → Option JsString}
      {attribution : Option R.Attribution} (waits : call.task = .opening)
      (opened : session.opened = true)
      (request : call.request = .applyBaselineEdit baseline edit attribution) :
      Resumes session call session (call.standAt .stale)
  | refuse {call : Call R} {baseline : JsString} {edit : JsString → Option JsString}
      {attribution : Option R.Attribution} (waits : call.task = .opening)
      (opened : session.opened = true)
      (request : call.request = .applyBaselineEdit baseline edit attribution)
      (current : baseline = session.currentBaseline) :
      Resumes session call session
        { call with task := .refused, handed := some session.currentContent }
  | applyBaseline {call : Call R} {baseline content : JsString}
      {edit : JsString → Option JsString} {attribution : Option R.Attribution}
      (waits : call.task = .opening) (opened : session.opened = true)
      (request : call.request = .applyBaselineEdit baseline edit attribution)
      (live : session.deleted = false) (current : baseline = session.currentBaseline)
      (edited : edit session.currentContent = some content) :
      Resumes session call
        ({ call with handed := some session.currentContent }.edit session content attribution).1
        ({ call with handed := some session.currentContent }.edit session content attribution).2
  | position {call : Call R} {edit : JsString → JsString} {attribution : Option R.Attribution}
      (waits : call.task = .opening) (opened : session.opened = true)
      (request : call.request = .applyContentEdit edit attribution)
      (live : session.deleted = false) :
      Resumes session call session (call.standAt (.positioned (edit session.currentContent)))
  | applyPositioned {call : Call R} {content : JsString} (waits : call.task = .positioned content)
      (live : session.deleted = false) :
      Resumes session call (call.edit session content call.attribution).1
        (call.edit session content call.attribution).2
  | finish {call : Call R} (waits : call.task = .flushing .resolved) :
      Resumes session call session (call.afterFlush session)
  | abandon {call : Call R} (waits : call.task = .flushing .rejected) :
      Resumes session call session call.afterFailedFlush
  | flush {call : Call R} {task nextTask : FlushTask} {next : Session R}
      (waits : call.task = .flushing task)
      (stepped : session.flushStep task = some (next, nextTask)) :
      Resumes session call next (call.standAt (.flushing nextTask))

theorem resumes_afterOpen {call : Call R} {session : Session R} (waits : call.task = .opening)
    (opened : session.opened = true) :
    Resumes session call (call.afterOpen session).1 (call.afterOpen session).2 := by
  unfold afterOpen
  split
  · rename_i request
    exact .read waits opened request
  · rename_i request
    split
    · exact .fail (.inl ⟨waits, opened⟩)
    · rename_i live
      exact .apply waits opened request (by simpa using live)
  · rename_i baseline edit attribution request
    split
    · exact .fail (.inl ⟨waits, opened⟩)
    · rename_i live
      split
      · exact .stale waits opened request
      · rename_i current
        split
        · exact .refuse waits opened request (not_not.mp current)
        · rename_i edited
          exact .applyBaseline waits opened request (by simpa using live) (not_not.mp current)
            edited
  · rename_i request
    split
    · exact .fail (.inl ⟨waits, opened⟩)
    · rename_i live
      exact .position waits opened request (by simpa using live)
  · exact .fail (.inl ⟨waits, opened⟩)

/-- Every continuation of a call is one of these. -/
theorem resumes_of_resume {call next : Call R} {session nextSession : Session R}
    (resumed : call.resume session = some (nextSession, next)) :
    Resumes session call nextSession next := by
  unfold resume at resumed
  split at resumed
  · rename_i waits
    split at resumed
    · rename_i opened
      have continued := resumes_afterOpen waits opened
      rw [Option.some.inj resumed] at continued
      exact continued
    · cases resumed
  · rename_i content waits
    split at resumed
    · cases resumed
      exact .fail (.inr ⟨content, waits⟩)
    · rename_i live
      cases resumed
      exact .applyPositioned waits (by simpa using live)
  · rename_i waits
    cases resumed
    exact .finish waits
  · rename_i waits
    cases resumed
    exact .abandon waits
  · rename_i task _ _ waits
    obtain ⟨⟨flushed, nextTask⟩, stepped, same⟩ := Option.map_eq_some_iff.mp resumed
    cases same
    exact .flush waits stepped
  all_goals cases resumed

theorem Resumes.moves {call next : Call R} {session nextSession : Session R}
    (resumes : Resumes session call nextSession next) : Moves session nextSession := by
  cases resumes with
  | read | fail | stale | refuse | position | finish | abandon => exact .inl rfl
  | apply waits opened request live => exact .inr (.inr ⟨live, _, _, rfl⟩)
  | applyBaseline waits opened request live current edited => exact .inr (.inr ⟨live, _, _, rfl⟩)
  | applyPositioned waits live => exact .inr (.inr ⟨live, _, _, rfl⟩)
  | flush waits stepped =>
      rcases Session.flushStep_cases stepped with rfl | rfl
      · exact .inl rfl
      · exact .inr (.inl rfl)

/-- A call that continues has had an open session. -/
theorem Resumes.past_open {call next : Call R} {session nextSession : Session R}
    (resumes : Resumes session call nextSession next)
    (waits : call.task = .opening ∨ call.task = .failed) : session.opened = true := by
  cases resumes with
  | fail stood =>
      rcases stood with ⟨_, opened⟩ | ⟨content, positioned⟩
      · exact opened
      · simp [positioned] at waits
  | applyPositioned stood | finish stood | abandon stood | flush stood => simp [stood] at waits
  | _ => assumption

theorem Moves.transacts {session next : Session R} (moves : Moves session next) :
    Session.Transacts R session.doc next.doc := by
  rcases moves with rfl | rfl | ⟨_, content, attribution, rfl⟩
  · exact .none
  · rw [(Session.requestPersist_fields _).1]
    exact .none
  · rw [Session.doc_flush]
    exact Session.transacts_applyContent session content attribution

theorem Moves.binding {session next : Session R} (moves : Moves session next) :
    next.binding = session.binding := by
  rcases moves with rfl | rfl | ⟨_, content, attribution, rfl⟩
  · rfl
  · exact Session.binding_of_frame (Session.frame_requestPersist _)
  · rw [Session.binding_flush]
    exact Session.binding_of_frame (Session.frame_applyContent session content attribution)

end Call

/-- An edit takes the document to its content. -/
theorem Session.currentContent_applyContent {R : Runtime} (session : Session R) (content : JsString)
    (attribution : Option R.Attribution) :
    (session.applyContent content attribution).currentContent = content := by
  unfold applyContent
  split
  · assumption
  · rw [currentContent, (handleDocumentUpdate_fields _ attribution).1]
    exact R.text_applyDelta _ content

theorem Call.currentContent_edit {R : Runtime} (call : Call R) (session : Session R)
    (content : JsString) (attribution : Option R.Attribution) :
    (call.edit session content attribution).1.currentContent = content := by
  dsimp only [Call.edit]
  rw [Session.currentContent, Session.doc_flush]
  exact session.currentContent_applyContent content attribution

/-- No step but the load changes the binding. -/
theorem serviceMachine_binding {R : Runtime} {service next : Service R}
    {label : ServiceLabel R} (stepped : (serviceMachine R).step service label = some next)
    (notLoad : label ≠ .load) :
    next.site.session.binding = service.site.session.binding := by
  cases label with
  | request request =>
      simp only [serviceMachine, Service.request] at stepped
      split at stepped
      · split at stepped
        · obtain rfl := Option.some.inj stepped
          dsimp only
          rw [Session.binding_flush]
          exact Session.binding_of_frame (Session.frame_applyUpdate _ _ _)
        · cases stepped
      · obtain rfl := Option.some.inj stepped
        rfl
  | load => exact absurd rfl notLoad
  | resume index =>
      simp only [serviceMachine, Service.resume] at stepped
      split at stepped
      · cases stepped
      · obtain ⟨⟨session, call⟩, resumed, rfl⟩ := Option.map_eq_some_iff.mp stepped
        exact (Call.resumes_of_resume resumed).moves.binding
  | session label =>
      obtain ⟨site, moved, rfl⟩ := Option.map_eq_some_iff.mp stepped
      exact sessionMachine_binding moved

/-- Every step but the load changes the document by a transaction, if at all. -/
theorem serviceMachine_transacts {R : Runtime} {service next : Service R}
    {label : ServiceLabel R} (stepped : (serviceMachine R).step service label = some next)
    (notLoad : label ≠ .load) :
    Session.Transacts R service.site.session.doc next.site.session.doc := by
  cases label with
  | request request =>
      simp only [serviceMachine, Service.request] at stepped
      split at stepped
      · split at stepped
        · obtain rfl := Option.some.inj stepped
          dsimp only
          rw [Session.doc_flush]
          exact Session.transacts_applyUpdate _ _ _
        · cases stepped
      · obtain rfl := Option.some.inj stepped
        exact .none
  | load => exact absurd rfl notLoad
  | resume index =>
      simp only [serviceMachine, Service.resume] at stepped
      split at stepped
      · cases stepped
      · obtain ⟨⟨session, call⟩, resumed, rfl⟩ := Option.map_eq_some_iff.mp stepped
        exact (Call.resumes_of_resume resumed).moves.transacts
  | session label =>
      obtain ⟨site, moved, rfl⟩ := Option.map_eq_some_iff.mp stepped
      exact sessionMachine_transacts moved

namespace Service

variable {R : Runtime}

/-- Hearing events only ends deferred acknowledgements. -/
theorem mem_hear {before after : Session R} {calls : List (Call R)} {call : Call R}
    (member : call ∈ hear before after calls) :
    call ∈ calls ∨ (call.task = .acked ∨ call.task = .failed) ∧
      ∃ old ∈ calls, old.task = .deferred := by
  unfold hear at member
  generalize after.events.drop before.events.length = emitted at member
  induction emitted generalizing calls with
  | nil => exact .inl member
  | cons event events ih =>
      have once (old : Call R) : old.hear event = old ∨
          ((old.hear event).task = .acked ∨ (old.hear event).task = .failed) ∧
            old.task = .deferred := by
        unfold Call.hear
        split
        · rename_i deferred _
          exact .inr ⟨.inl rfl, deferred⟩
        · rename_i deferred _
          exact .inr ⟨.inr rfl, deferred⟩
        · exact .inl rfl
      rcases ih member with heard | ⟨ended, middle, heard, deferred⟩
      · obtain ⟨old, listed, rfl⟩ := List.mem_map.mp heard
        rcases once old with same | ⟨ended, deferred⟩
        · rw [same]
          exact .inl listed
        · exact .inr ⟨ended, old, listed, deferred⟩
      · obtain ⟨old, listed, rfl⟩ := List.mem_map.mp heard
        rcases once old with same | ⟨_, waited⟩
        · rw [same] at deferred
          exact .inr ⟨ended, old, listed, deferred⟩
        · exact .inr ⟨ended, old, listed, waited⟩

/-- Where a call of the list after a step comes from. -/
inductive Origin (service next : Service R) (call : Call R) : Prop where
  | kept (member : call ∈ service.calls)
  | arrived (untouched : call.handed = none) (task : call.task = .opening ∨ call.task = .failed)
  | updated {task : FlushTask} (opened : service.site.session.opened = true)
      (flushing : call.task = .flushing task)
  | heard {old : Call R} (member : old ∈ service.calls) (deferred : old.task = .deferred)
      (ended : call.task = .acked ∨ call.task = .failed)
  | resumed {old : Call R} (member : old ∈ service.calls)
      (resumes : Call.Resumes service.site.session old next.site.session call)

theorem origin_of_mem {service next : Service R} {label : ServiceLabel R} {call : Call R}
    (stepped : (serviceMachine R).step service label = some next) (notLoad : label ≠ .load)
    (member : call ∈ next.calls) : Origin service next call := by
  cases label with
  | request request =>
      simp only [serviceMachine, Service.request] at stepped
      split at stepped
      · split at stepped
        · rename_i open_
          obtain rfl := Option.some.inj stepped
          rcases List.mem_append.mp member with old | new
          · exact .kept old
          · obtain rfl := List.mem_singleton.mp new
            exact .updated open_.1 rfl
        · cases stepped
      · obtain rfl := Option.some.inj stepped
        rcases List.mem_append.mp member with old | new
        · exact .kept old
        · obtain rfl := List.mem_singleton.mp new
          refine .arrived rfl ?_
          dsimp only
          split
          · exact .inr rfl
          · exact .inl rfl
  | load => exact absurd rfl notLoad
  | resume index =>
      simp only [serviceMachine, Service.resume] at stepped
      split at stepped
      · cases stepped
      · rename_i old found
        obtain ⟨⟨session, after⟩, resumed, rfl⟩ := Option.map_eq_some_iff.mp stepped
        rcases List.mem_or_eq_of_mem_set member with kept | rfl
        · exact .kept kept
        · exact .resumed (List.mem_of_getElem? found) (Call.resumes_of_resume resumed)
  | session label =>
      obtain ⟨site, moved, rfl⟩ := Option.map_eq_some_iff.mp stepped
      rcases mem_hear member with old | ⟨ended, old, listed, deferred⟩
      · exact .kept old
      · exact .heard listed deferred ended

/-- A call that continues is replaced at its place. -/
theorem resume_cases {service next : Service R} {index : Nat}
    (resumed : service.resume index = some next) :
    ∃ front call back session after, service.calls[index]? = some call ∧
      service.calls = front ++ call :: back ∧
      Call.Resumes service.site.session call session after ∧
      next = ⟨{ service.site with session := session }, front ++ after :: back⟩ := by
  unfold resume at resumed
  split at resumed
  · cases resumed
  · rename_i call found
    obtain ⟨⟨session, after⟩, stepped, rfl⟩ := Option.map_eq_some_iff.mp resumed
    obtain ⟨inside, rfl⟩ := List.getElem?_eq_some_iff.mp found
    obtain ⟨front, back, split, _, replaced⟩ : ∃ front back,
        service.calls = front ++ service.calls[index] :: back ∧ front.length = index ∧
          service.calls.set index after = front ++ after :: back := List.exists_of_set inside
    refine ⟨front, _, back, session, after, found, split, Call.resumes_of_resume stepped, ?_⟩
    rw [replaced]

/-- A load finds a session that is not open, and at most fails the calls that
wait for it. -/
theorem load_cases {service next : Service R} (loaded : service.load = some next) :
    service.site.session.opened = false ∧
      ((∃ content, service.site.load = (next.site, .ok content) ∧ next.calls = service.calls) ∨
        ∃ error, service.site.load = (next.site, .error error) ∧
          next.calls = service.calls.map Call.failOpen) := by
  unfold load at loaded
  split at loaded
  · cases loaded
  · rename_i cold
    have closed : service.site.session.opened = false := by
      by_contra open_
      exact cold (.inl (by simpa using open_))
    refine ⟨closed, ?_⟩
    split at loaded
    · rename_i site content read
      obtain rfl := Option.some.inj loaded
      exact .inl ⟨content, read, rfl⟩
    · rename_i site error read
      obtain rfl := Option.some.inj loaded
      exact .inr ⟨error, read, rfl⟩

/-- On a session that is not open every call waits for its open, or has
failed. -/
def ColdWaits (service : Service R) : Prop :=
  service.site.session.opened = false →
    ∀ call ∈ service.calls, call.task = .opening ∨ call.task = .failed

end Service

/-- No step lets a call past the open of a session that is not open. -/
theorem serviceMachine_coldWaits {R : Runtime} {service next : Service R}
    {label : ServiceLabel R} (cold : service.ColdWaits)
    (stepped : (serviceMachine R).step service label = some next) : next.ColdWaits := by
  intro closed call member
  by_cases isLoad : label = .load
  · subst isLoad
    obtain ⟨before, outcome⟩ := Service.load_cases stepped
    rcases outcome with ⟨content, _, same⟩ | ⟨error, _, same⟩
    · rw [same] at member
      exact cold before call member
    · rw [same] at member
      obtain ⟨old, listed, rfl⟩ := List.mem_map.mp member
      unfold Call.failOpen
      split
      · exact .inr rfl
      · exact cold before old listed
  have opened := congrArg Session.Binding.opened (serviceMachine_binding stepped isLoad)
  have before : service.site.session.opened = false := opened.symm.trans closed
  cases Service.origin_of_mem stepped isLoad member with
  | kept old => exact cold before call old
  | arrived untouched task => exact task
  | updated open_ flushing => simp [before] at open_
  | heard old deferred ended =>
      have waits := cold before _ old
      simp [deferred] at waits
  | resumed old resumes =>
      have open_ := resumes.past_open (cold before _ old)
      simp [before] at open_

/-- An opened note without calls. -/
def Replica.openedService (content : JsString) : Service replicaRuntime :=
  ⟨openedSite content, []⟩

end Kb1Daemon
