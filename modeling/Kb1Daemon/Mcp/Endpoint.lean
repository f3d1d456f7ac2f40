import Kb1Daemon.Foundation.Machine
import Kb1Daemon.Foundation.Slots
import Mathlib.Data.List.Nodup

/-! # The sessions of the MCP endpoint

A session counts its requests in progress, starts an idle timer when the last of them ends and
stops it when the next one begins. The endpoint closes in stages: it takes no more requests, waits
for those it has taken, takes no more operations, waits for those, and gives up its sessions.

The counts are exact, and an idle timer is pending for just the sessions in the map without a
request (`McpEndpoint.sessions_counted`).
-/

namespace Kb1Daemon

/-- A session of the endpoint, with its pending initialization timer and its last idle timer. -/
structure McpSessionRecord where
  activeRequests : Nat
  initializationTimer : Bool
  idleTimer : Option Nat
  deriving DecidableEq, Repr

/-- How far a request has come: its body is read, a session is made for it, its session handles it,
its response is read, its response is handed on, it is over. -/
inductive McpTask where
  | parsing
  | connecting
  | handling
  | streaming
  | leaving
  | done
  deriving DecidableEq, Repr

inductive HttpMethod where
  | get
  | post
  | other
  deriving DecidableEq, Repr

structure McpRequest where
  method : HttpMethod
  session : Option Nat
  task : McpTask
  deriving DecidableEq, Repr

/-- The request counts for its session. -/
def McpRequest.isActive (request : McpRequest) (session : Nat) : Bool :=
  request.session = some session && (request.task = .handling || request.task = .streaming)

/-- The endpoint waits for the request when it closes. -/
def McpRequest.isTracked (request : McpRequest) : Bool :=
  request.method ≠ .get && request.task ≠ .done

/-- What follows when the session is done with the request; a `GET` is not tracked. -/
def McpRequest.rest (request : McpRequest) : McpTask :=
  if request.method = .get then .done else .leaving

/-- The answer of a session to a request: whether it has a body, whether it is a success, and
whether the request has told that the client is initialized. -/
structure McpAnswer where
  body : Bool
  ok : Bool
  acknowledges : Bool
  deriving DecidableEq, Repr

/-- The stages of a close: waiting for the requests, for the operations and for the servers. -/
inductive McpClose where
  | drainingRequests (waiting : List Nat)
  | drainingOperations (waiting : List Nat)
  | closingServers
  | closed
  deriving DecidableEq, Repr

/-- The endpoint: the sessions ever made and those in its map, the requests, the pending idle timers
with their sessions, the operations and which of them are over. -/
structure McpEndpoint where
  records : List McpSessionRecord
  sessions : List Nat
  requests : List McpRequest
  idleTimers : List (Nat × Nat)
  nextTimer : Nat
  operations : List Bool
  acceptingRequests : Bool
  acceptingOperations : Bool
  closing : Option McpClose
  deriving DecidableEq, Repr

namespace McpEndpoint

def new : McpEndpoint where
  records := []
  sessions := []
  requests := []
  idleTimers := []
  nextTimer := 0
  operations := []
  acceptingRequests := true
  acceptingOperations := true
  closing := none

def modifyRecord (endpoint : McpEndpoint) (session : Nat)
    (edit : McpSessionRecord → McpSessionRecord) : McpEndpoint :=
  { endpoint with records := endpoint.records.modify session edit }

def setTask (endpoint : McpEndpoint) (index : Nat) (task : McpTask) : McpEndpoint :=
  { endpoint with
    requests := endpoint.requests.modify index fun request => { request with task := task } }

/-- The timer that a session has recorded is cleared. -/
def clearIdleTimer (endpoint : McpEndpoint) (session : Nat) : McpEndpoint :=
  { endpoint with
    idleTimers := endpoint.idleTimers.filter fun timer =>
      (endpoint.records[session]?.bind McpSessionRecord.idleTimer) ≠ some timer.1 }

def finishSessionRequest (endpoint : McpEndpoint) (session : Nat) : McpEndpoint :=
  let counted := endpoint.modifyRecord session fun record =>
    { record with activeRequests := record.activeRequests - 1 }
  if session ∉ endpoint.sessions ∨
      0 < (counted.records[session]?.map McpSessionRecord.activeRequests).getD 0 then counted
  else
    { counted.modifyRecord session fun record =>
        { record with idleTimer := some endpoint.nextTimer } with
      idleTimers := endpoint.idleTimers ++ [(endpoint.nextTimer, session)]
      nextTimer := endpoint.nextTimer + 1 }

/-- The session counts a request no longer, and its response is handed on. -/
def finishSession (endpoint : McpEndpoint) (index : Nat) (request : McpRequest) : McpEndpoint :=
  let left := endpoint.setTask index request.rest
  request.session.elim left left.finishSessionRequest

def finishSessionRequestWhenConsumed (endpoint : McpEndpoint) (index : Nat) (request : McpRequest)
    (body : Bool) : McpEndpoint :=
  if body then endpoint.setTask index .streaming else endpoint.finishSession index request

def trackSessionRequest (endpoint : McpEndpoint) (session : Nat) (method : HttpMethod) :
    McpEndpoint :=
  { (endpoint.clearIdleTimer session).modifyRecord session fun record =>
      { record with idleTimer := none, activeRequests := record.activeRequests + 1 } with
    requests := endpoint.requests ++ [⟨method, some session, .handling⟩] }

/-- A request comes in, with the session it names if that is in the map. -/
def handleRequest (endpoint : McpEndpoint) (method : HttpMethod) (session : Option Nat) :
    McpEndpoint :=
  if !endpoint.acceptingRequests then endpoint
  else
    match session.filter (· ∈ endpoint.sessions) with
    | some session => endpoint.trackSessionRequest session method
    | none =>
        let task : McpTask := match method with
          | .get => .done
          | .post => .parsing
          | .other => .leaving
        { endpoint with requests := endpoint.requests ++ [⟨method, none, task⟩] }

/-- A session answers its request, or fails to. -/
def answered (endpoint : McpEndpoint) (index : Nat) (request : McpRequest)
    (answer : Option McpAnswer) : McpEndpoint :=
  match answer with
  | none => endpoint.finishSession index request
  | some answer =>
      let acknowledged :=
        if answer.acknowledges && answer.ok then
          request.session.elim endpoint fun session => endpoint.modifyRecord session fun record =>
            { record with initializationTimer := false }
        else endpoint
      acknowledged.finishSessionRequestWhenConsumed index request answer.body

/-- A session is made for a request; its answer has a body or not. -/
def connected (endpoint : McpEndpoint) (index : Nat) (old : McpRequest) (body : Bool) :
    McpEndpoint :=
  let session := endpoint.records.length
  let request := { old with session := some session, task := .handling }
  finishSessionRequestWhenConsumed { endpoint with
    records := endpoint.records ++ [⟨1, true, none⟩]
    sessions := endpoint.sessions ++ [session]
    requests := endpoint.requests.set index request } index request body

/-- The initialization timer of a session fires. -/
def initializationTimeout (endpoint : McpEndpoint) (session : Nat) : McpEndpoint :=
  { endpoint.modifyRecord session fun record => { record with initializationTimer := false } with
    sessions := endpoint.sessions.erase session }

/-- An idle timer fires. -/
def idleTimeout (endpoint : McpEndpoint) (timer : Nat × Nat) : McpEndpoint :=
  let fired := { endpoint with idleTimers := endpoint.idleTimers.erase timer }
  if timer.2 ∉ endpoint.sessions ∨
      0 < (endpoint.records[timer.2]?.map McpSessionRecord.activeRequests).getD 0 then fired
  else { fired with sessions := endpoint.sessions.erase timer.2 }

/-- The timers of a session are cleared. -/
def clearTimers (endpoint : McpEndpoint) (session : Nat) : McpEndpoint :=
  (endpoint.clearIdleTimer session).modifyRecord session fun record =>
    { record with initializationTimer := false }

/-- The transport of a session closes. -/
def transportClosed (endpoint : McpEndpoint) (session : Nat) : McpEndpoint :=
  if session ∈ endpoint.sessions then
    { endpoint.clearTimers session with sessions := endpoint.sessions.erase session }
  else endpoint

/-- The requests, by their numbers, that the endpoint tracks. -/
def activeHttpRequests (endpoint : McpEndpoint) : List Nat :=
  (List.range endpoint.requests.length).filter fun index =>
    endpoint.requests[index]?.any McpRequest.isTracked

def activeOperations (endpoint : McpEndpoint) : List Nat :=
  (List.range endpoint.operations.length).filter fun index =>
    endpoint.operations[index]? = some false

def close (endpoint : McpEndpoint) : McpEndpoint :=
  match endpoint.closing with
  | some _ => endpoint
  | none =>
      { endpoint with
        acceptingRequests := false
        closing := some (.drainingRequests endpoint.activeHttpRequests) }

/-- The sessions are given up. -/
def giveUp (endpoint : McpEndpoint) : McpEndpoint :=
  endpoint.sessions.foldl clearTimers { endpoint with sessions := [] }

/-- The close goes on, when what it waits for is over. -/
def proceed (endpoint : McpEndpoint) : Option McpEndpoint :=
  match endpoint.closing with
  | some (.drainingRequests waiting) =>
      if ∀ index ∈ waiting, index ∉ endpoint.activeHttpRequests then
        some { endpoint with
          acceptingOperations := false
          closing := some (.drainingOperations endpoint.activeOperations) }
      else none
  | some (.drainingOperations waiting) =>
      if ∀ index ∈ waiting, index ∉ endpoint.activeOperations then
        some { endpoint.giveUp with closing := some .closingServers }
      else none
  | some .closingServers => some { endpoint with closing := some .closed }
  | _ => none

end McpEndpoint

/-- An event at the endpoint. Requests, operations and sessions are named by their numbers. -/
inductive McpLabel where
  | request (method : HttpMethod) (session : Option Nat)
  /-- The body of a request without a session is read: it initializes a session, or is refused. -/
  | parsed (index : Nat) (initializes : Bool)
  /-- The session of a request is made, or its making fails or gives no session. -/
  | connected (index : Nat) (body : Option Bool)
  | answered (index : Nat) (answer : Option McpAnswer)
  /-- The body of a response has been read, or given up. -/
  | consumed (index : Nat)
  /-- The response has been handed on. -/
  | finished (index : Nat)
  | initializationTimer (session : Nat)
  | idleTimer (timer : Nat × Nat)
  | transportClosed (session : Nat)
  | startOperation
  | finishOperation (index : Nat)
  | close
  | proceed
  deriving DecidableEq, Repr

/-- The machine of the endpoint. -/
def mcpEndpoint : Machine McpEndpoint McpLabel where
  step endpoint label :=
    match label with
    | .request method session => some (endpoint.handleRequest method session)
    | .parsed index initializes =>
        (endpoint.requests[index]?.filter (·.task = .parsing)).map fun _ =>
          endpoint.setTask index (if initializes then .connecting else .leaving)
    | .connected index body =>
        (endpoint.requests[index]?.filter (·.task = .connecting)).map fun request =>
          body.elim (endpoint.setTask index .leaving) (endpoint.connected index request)
    | .answered index answer =>
        (endpoint.requests[index]?.filter (·.task = .handling)).map fun request =>
          endpoint.answered index request answer
    | .consumed index =>
        (endpoint.requests[index]?.filter (·.task = .streaming)).map
          (endpoint.finishSession index)
    | .finished index =>
        (endpoint.requests[index]?.filter (·.task = .leaving)).map fun _ =>
          endpoint.setTask index .done
    | .initializationTimer session =>
        if endpoint.records[session]?.any McpSessionRecord.initializationTimer then
          some (endpoint.initializationTimeout session)
        else none
    | .idleTimer timer =>
        if timer ∈ endpoint.idleTimers then some (endpoint.idleTimeout timer) else none
    | .transportClosed session => some (endpoint.transportClosed session)
    | .startOperation =>
        if endpoint.acceptingOperations then
          some { endpoint with operations := endpoint.operations ++ [false] }
        else some endpoint
    | .finishOperation index =>
        if endpoint.operations[index]? = some false then
          some { endpoint with operations := endpoint.operations.set index true }
        else none
    | .close => some endpoint.close
    | .proceed => endpoint.proceed

namespace McpClose

/-- The requests are over. -/
def isQuiet : McpClose → Bool
  | .drainingRequests _ => false
  | _ => true

/-- The operations are over too. -/
def isOver : McpClose → Bool
  | .closingServers | .closed => true
  | _ => false

/-- A close that is over is quiet. -/
theorem quiet_of_over {closing : Option McpClose} (settled : closing.any isOver = true) :
    closing.any isQuiet = true := by
  cases closing with
  | none => cases settled
  | some stage => cases stage <;> first | rfl | cases settled

end McpClose

namespace McpEndpoint

variable {endpoint next : McpEndpoint}

/-- The pending idle timers of a session. -/
def timersOf (endpoint : McpEndpoint) (session : Nat) : List (Nat × Nat) :=
  endpoint.idleTimers.filter (·.2 = session)

/-- The record of a session counts its requests; the timer it has recorded is its own; and while the
session is in the map, that one is pending just when the count is zero. -/
structure Tells (endpoint : McpEndpoint) (session : Nat) (record : McpSessionRecord) : Prop where
  count : record.activeRequests = endpoint.requests.countP (·.isActive session)
  fresh : ∀ timer, record.idleTimer = some timer → timer < endpoint.nextTimer
  owner : ∀ timer, record.idleTimer = some timer →
    ∀ other, (timer, other) ∈ endpoint.idleTimers → other = session
  busy : session ∈ endpoint.sessions → 0 < record.activeRequests → endpoint.timersOf session = []
  idle : session ∈ endpoint.sessions → record.activeRequests = 0 →
    ∃ timer, record.idleTimer = some timer ∧ endpoint.timersOf session = [(timer, session)]

structure Counted (endpoint : McpEndpoint) : Prop where
  distinct : endpoint.sessions.Nodup
  known : ∀ session ∈ endpoint.sessions, session < endpoint.records.length
  owned : ∀ request ∈ endpoint.requests, ∀ session, request.session = some session →
    session < endpoint.records.length
  numbered : ∀ timer ∈ endpoint.idleTimers, timer.1 < endpoint.nextTimer
  placed : ∀ timer ∈ endpoint.idleTimers, timer.2 < endpoint.records.length
  tells : ∀ session record, endpoint.records[session]? = some record →
    endpoint.Tells session record

theorem counted_new : new.Counted where
  distinct := List.nodup_nil
  known := by simp [new]
  owned := by simp [new]
  numbered := by simp [new]
  placed := by simp [new]
  tells := by simp [new]

/-- A record is kept by a step that changes nothing of its session. -/
theorem Tells.keeps {session : Nat} {record : McpSessionRecord}
    (tells : endpoint.Tells session record)
    (count : next.requests.countP (·.isActive session) =
      endpoint.requests.countP (·.isActive session))
    (numbers : endpoint.nextTimer ≤ next.nextTimer)
    (timers : ∀ timer < endpoint.nextTimer, ∀ other, (timer, other) ∈ next.idleTimers →
      (timer, other) ∈ endpoint.idleTimers)
    (own : next.timersOf session = endpoint.timersOf session)
    (sessions : session ∈ next.sessions → session ∈ endpoint.sessions) :
    next.Tells session record where
  count := by rw [count, tells.count]
  fresh timer recorded := Nat.lt_of_lt_of_le (tells.fresh timer recorded) numbers
  owner timer recorded other pending :=
    tells.owner timer recorded other (timers timer (tells.fresh timer recorded) other pending)
  busy inside active := by
    rw [own]
    exact tells.busy (sessions inside) active
  idle inside none := by
    rw [own]
    exact tells.idle (sessions inside) none

/-- A step of the operations or of the close. -/
theorem Counted.same (counted : endpoint.Counted) (records : next.records = endpoint.records)
    (sessions : next.sessions = endpoint.sessions) (requests : next.requests = endpoint.requests)
    (timers : next.idleTimers = endpoint.idleTimers)
    (numbers : next.nextTimer = endpoint.nextTimer) : next.Counted where
  distinct := by rw [sessions]; exact counted.distinct
  known := by rw [sessions, records]; exact counted.known
  owned := by rw [requests, records]; exact counted.owned
  numbered := by rw [timers, numbers]; exact counted.numbered
  placed := by rw [timers, records]; exact counted.placed
  tells session record found := by
    rw [records] at found
    refine (counted.tells session record found).keeps ?_ ?_ ?_ ?_ ?_
    · rw [requests]
    · exact Nat.le_of_eq numbers.symm
    · rw [timers]
      exact fun _ _ _ pending => pending
    · rw [timersOf, timers]
      rfl
    · rw [sessions]
      exact id

/-- A step that changes the requests alone, and no count. -/
theorem Counted.requests (counted : endpoint.Counted) {requests : List McpRequest}
    (owned : ∀ request ∈ requests, ∀ session, request.session = some session →
      session < endpoint.records.length)
    (count : ∀ session, requests.countP (·.isActive session) =
      endpoint.requests.countP (·.isActive session)) :
    Counted { endpoint with requests := requests } where
  distinct := counted.distinct
  known := counted.known
  owned := owned
  numbered := counted.numbered
  placed := counted.placed
  tells session record found :=
    (counted.tells session record found).keeps (count session) (Nat.le_refl _)
      (fun _ _ _ pending => pending) rfl id

theorem setTask_eq {index : Nat} {request : McpRequest} (task : McpTask)
    (found : endpoint.requests[index]? = some request) :
    endpoint.setTask index task =
      { endpoint with requests := endpoint.requests.set index { request with task := task } } := by
  rw [setTask, List.modify_eq_set_of_found _ found]

/-- The requests belong to the sessions they belonged to. -/
theorem Counted.owned_set (counted : endpoint.Counted) {index : Nat} {request : McpRequest}
    (task : McpTask) (found : endpoint.requests[index]? = some request) :
    ∀ other ∈ endpoint.requests.set index { request with task := task },
      ∀ session, other.session = some session → session < endpoint.records.length := by
  intro other listed session belongs
  rcases List.mem_or_eq_of_mem_set listed with old | rfl
  · exact counted.owned other old session belongs
  · exact counted.owned request (List.mem_of_getElem? found) session belongs

/-- A request that changes counts as it is now. -/
theorem countP_set {index : Nat} {request : McpRequest} (changed : McpRequest)
    (found : endpoint.requests[index]? = some request) (session : Nat) :
    (endpoint.requests.set index changed).countP (·.isActive session) +
        (request.isActive session).toNat =
      endpoint.requests.countP (·.isActive session) + (changed.isActive session).toNat :=
  List.countP_set_add changed found

/-- A request whose activity stays. -/
theorem Counted.setTask (counted : endpoint.Counted) {index : Nat} {request : McpRequest}
    (task : McpTask) (found : endpoint.requests[index]? = some request)
    (same : ∀ session, McpRequest.isActive { request with task := task } session =
      request.isActive session) : (endpoint.setTask index task).Counted := by
  rw [setTask_eq task found]
  refine counted.requests (counted.owned_set task found) fun session => ?_
  have counts := countP_set { request with task := task } found session
  rw [same] at counts
  exact Nat.add_right_cancel counts

/-- A new request that is not active. -/
theorem Counted.append (counted : endpoint.Counted) {request : McpRequest}
    (free : request.session = none) :
    Counted { endpoint with requests := endpoint.requests ++ [request] } := by
  refine counted.requests ?_ fun session => ?_
  · intro other listed session belongs
    rcases List.mem_append.mp listed with old | new
    · exact counted.owned other old session belongs
    · rw [List.mem_singleton.mp new, free] at belongs
      cases belongs
  · have inactive : request.isActive session = false := by simp [McpRequest.isActive, free]
    rw [List.countP_append, List.countP_singleton, inactive]
    rfl

theorem timersOf_clearIdleTimer (counted : endpoint.Counted) {session other : Nat}
    {record : McpSessionRecord} (found : endpoint.records[session]? = some record) :
    (endpoint.clearIdleTimer session).timersOf other =
      if other = session then
        (endpoint.timersOf session).filter fun timer => record.idleTimer ≠ some timer.1
      else endpoint.timersOf other := by
  have tells := counted.tells session record found
  unfold timersOf clearIdleTimer
  dsimp only
  rw [found, Option.bind_some, List.filter_filter]
  split
  · rename_i same
    rw [List.filter_filter, same]
    exact List.filter_congr fun timer _ => Bool.and_comm _ _
  · rename_i different
    apply List.filter_congr
    rintro ⟨number, owner⟩ pending
    by_cases mine : owner = other
    · have kept : record.idleTimer ≠ some number := by
        intro recorded
        exact different (mine ▸ tells.owner number recorded owner pending)
      simp [mine, kept]
    · simp [mine]

/-- A session in the map whose timer is cleared has none. -/
theorem Tells.cleared {session : Nat} {record : McpSessionRecord}
    (tells : endpoint.Tells session record) (inside : session ∈ endpoint.sessions) :
    (endpoint.timersOf session).filter (fun timer => record.idleTimer ≠ some timer.1) = [] := by
  by_cases active : 0 < record.activeRequests
  · rw [tells.busy inside active]
    rfl
  · obtain ⟨timer, recorded, pending⟩ := tells.idle inside (by omega)
    rw [pending]
    simp [recorded]

theorem modifyRecord_eq {session : Nat} {record : McpSessionRecord}
    (edit : McpSessionRecord → McpSessionRecord)
    (found : endpoint.records[session]? = some record) :
    endpoint.modifyRecord session edit =
      { endpoint with records := endpoint.records.set session (edit record) } := by
  rw [modifyRecord, List.modify_eq_set_of_found edit found]

theorem Counted.trackSessionRequest (counted : endpoint.Counted) {session : Nat}
    (method : HttpMethod) (inside : session ∈ endpoint.sessions) :
    (endpoint.trackSessionRequest session method).Counted := by
  have bound := counted.known session inside
  obtain ⟨record, found⟩ : ∃ record, endpoint.records[session]? = some record :=
    ⟨_, List.getElem?_eq_getElem bound⟩
  have tells := counted.tells session record found
  have state : endpoint.trackSessionRequest session method = { endpoint.clearIdleTimer session with
      records := endpoint.records.set session
        { record with idleTimer := none, activeRequests := record.activeRequests + 1 }
      requests := endpoint.requests ++ [⟨method, some session, .handling⟩] } := by
    have kept : (endpoint.clearIdleTimer session).records[session]? = some record := found
    rw [McpEndpoint.trackSessionRequest, modifyRecord_eq _ kept]
    rfl
  rw [state]
  have count : ∀ other, (endpoint.requests ++
      [(⟨method, some session, .handling⟩ : McpRequest)]).countP (·.isActive other) =
        endpoint.requests.countP (·.isActive other) + if other = session then 1 else 0 := by
    intro other
    rw [List.countP_append, List.countP_singleton]
    by_cases same : session = other
    · simp [McpRequest.isActive, same]
    · simp [McpRequest.isActive, same, Ne.symm same]
  refine ⟨counted.distinct, ?_, ?_, ?_, ?_, ?_⟩
  · intro other listed
    rw [List.length_set]
    exact counted.known other listed
  · intro request listed other belongs
    rw [List.length_set]
    rcases List.mem_append.mp listed with old | new
    · exact counted.owned request old other belongs
    · rw [List.mem_singleton.mp new] at belongs
      cases belongs
      exact bound
  · intro timer pending
    exact counted.numbered timer (List.mem_filter.mp pending).1
  · intro timer pending
    rw [List.length_set]
    exact counted.placed timer (List.mem_filter.mp pending).1
  · intro other entry there
    rcases List.getElem?_set_cases there with ⟨rfl, rfl⟩ | ⟨different, there⟩
    · refine ⟨?_, nofun, nofun, ?_, nofun⟩
      · dsimp only
        rw [count, if_pos rfl, tells.count]
      · intro _ _
        exact (timersOf_clearIdleTimer counted found).trans
          (by rw [if_pos rfl]; exact tells.cleared inside)
    · refine (counted.tells other entry there).keeps ?_ (Nat.le_refl _) ?_ ?_ id
      · dsimp only
        rw [count, if_neg different]
        rfl
      · intro timer _ owner pending
        exact (List.mem_filter.mp pending).1
      · exact (timersOf_clearIdleTimer counted found).trans (if_neg different)

theorem finishSessionRequest_eq {session : Nat} {record : McpSessionRecord}
    (known : endpoint.records[session]? = some record) :
    endpoint.finishSessionRequest session =
      if session ∉ endpoint.sessions ∨ 0 < record.activeRequests - 1 then
        { endpoint with
          records := endpoint.records.set session
            { record with activeRequests := record.activeRequests - 1 } }
      else
        { endpoint with
          records := endpoint.records.set session
            { record with
              activeRequests := record.activeRequests - 1, idleTimer := some endpoint.nextTimer }
          idleTimers := endpoint.idleTimers ++ [(endpoint.nextTimer, session)]
          nextTimer := endpoint.nextTimer + 1 } := by
  have inside := (List.getElem?_eq_some_iff.mp known).1
  have count : ((endpoint.records.set session
      { record with activeRequests := record.activeRequests - 1 })[session]?.map
        McpSessionRecord.activeRequests).getD 0 = record.activeRequests - 1 := by
    rw [List.getElem?_set_self inside]
    rfl
  unfold finishSessionRequest
  dsimp only
  rw [modifyRecord_eq _ known]
  dsimp only
  rw [count]
  split
  · rfl
  · rw [modifyRecord_eq _ (List.getElem?_set_self inside)]
    simp only [List.set_set]

/-- The end of a request with its session. -/
theorem finishSession_eq {index session : Nat} {request : McpRequest}
    (found : endpoint.requests[index]? = some request) (belongs : request.session = some session) :
    endpoint.finishSession index request = finishSessionRequest { endpoint with
      requests := endpoint.requests.set index
        { request with task := request.rest } } session := by
  have joined : ∀ left : McpEndpoint, request.session.elim left left.finishSessionRequest =
      left.finishSessionRequest session := by
    intro left
    rw [belongs]
    rfl
  rw [finishSession, joined, setTask_eq _ found]

theorem Counted.finishSession (counted : endpoint.Counted) {index : Nat} {request : McpRequest}
    (found : endpoint.requests[index]? = some request)
    (active : request.task = .handling ∨ request.task = .streaming) :
    (endpoint.finishSession index request).Counted := by
  cases belongs : request.session with
  | none =>
      rw [McpEndpoint.finishSession, belongs, Option.elim_none]
      exact counted.setTask _ found fun session => by simp [McpRequest.isActive, belongs]
  | some session =>
      have bound := counted.owned request (List.mem_of_getElem? found) session belongs
      obtain ⟨record, known⟩ : ∃ record, endpoint.records[session]? = some record :=
        ⟨_, List.getElem?_eq_getElem bound⟩
      have tells := counted.tells session record known
      have count : ∀ other, (endpoint.requests.set index
          { request with task := request.rest }).countP (·.isActive other) +
            (if other = session then 1 else 0) =
              endpoint.requests.countP (·.isActive other) := by
        intro other
        have counts := countP_set { request with task := request.rest } found other
        have before : (request.isActive other).toNat = if other = session then 1 else 0 := by
          by_cases same : other = session
          · rcases active with task | task <;> simp [McpRequest.isActive, belongs, same, task]
          · simp [McpRequest.isActive, belongs, same, Ne.symm same]
        have after : McpRequest.isActive { request with task := request.rest } other = false := by
          unfold McpRequest.isActive McpRequest.rest
          dsimp only
          split <;> simp
        rw [after] at counts
        rw [before] at counts
        exact counts
      have own := count session
      rw [if_pos rfl, ← tells.count] at own
      have ends : ∀ other ∈ (endpoint.requests.set index
          { request with task := request.rest }),
            ∀ session, other.session = some session → session < endpoint.records.length :=
        counted.owned_set _ found
      rw [finishSession_eq found belongs, @finishSessionRequest_eq { endpoint with
        requests := endpoint.requests.set index { request with task := request.rest } } _ _ known]
      split
      · rename_i waits
        refine ⟨counted.distinct, ?_, ?_, counted.numbered, ?_, ?_⟩
        · intro other listed
          rw [List.length_set]
          exact counted.known other listed
        · intro other listed
          rw [List.length_set]
          exact ends other listed
        · intro timer pending
          rw [List.length_set]
          exact counted.placed timer pending
        · intro other entry there
          rcases List.getElem?_set_cases there with ⟨rfl, rfl⟩ | ⟨different, there⟩
          · refine ⟨?_, tells.fresh, tells.owner, ?_, ?_⟩
            · dsimp only
              omega
            · intro inside _
              exact tells.busy inside (by omega)
            · intro inside (zero : record.activeRequests - 1 = 0)
              rw [zero] at waits
              exact absurd inside (waits.resolve_right (Nat.lt_irrefl 0))
          · refine (counted.tells other entry there).keeps ?_ (Nat.le_refl _)
              (fun _ _ _ pending => pending) rfl id
            have same := count other
            rw [if_neg different] at same
            exact same
      · rename_i last
        obtain ⟨inside, zero⟩ := not_or.mp last
        rw [not_not] at inside
        have quiet := tells.busy inside (by omega)
        have timers : ∀ other, timersOf { endpoint with
            idleTimers := endpoint.idleTimers ++ [(endpoint.nextTimer, session)] } other =
              endpoint.timersOf other ++ if other = session then [(endpoint.nextTimer, session)]
                else [] := by
          intro other
          unfold timersOf
          rw [List.filter_append]
          by_cases same : session = other
          · simp [same]
          · simp [same, Ne.symm same]
        refine ⟨counted.distinct, ?_, ?_, ?_, ?_, ?_⟩
        · intro other listed
          rw [List.length_set]
          exact counted.known other listed
        · intro other listed
          rw [List.length_set]
          exact ends other listed
        · intro timer pending
          rcases List.mem_append.mp pending with old | new
          · exact Nat.lt_succ_of_lt (counted.numbered timer old)
          · rw [List.mem_singleton.mp new]
            exact Nat.lt_succ_self _
        · intro timer pending
          rw [List.length_set]
          rcases List.mem_append.mp pending with old | new
          · exact counted.placed timer old
          · rw [List.mem_singleton.mp new]
            exact bound
        · intro other entry there
          rcases List.getElem?_set_cases there with ⟨rfl, rfl⟩ | ⟨different, there⟩
          · refine ⟨?_, ?_, ?_, ?_, ?_⟩
            · dsimp only
              omega
            · rintro _ ⟨⟩
              exact Nat.lt_succ_self _
            · rintro _ ⟨⟩ owner pending
              rcases List.mem_append.mp pending with old | new
              · exact absurd (counted.numbered _ old) (Nat.lt_irrefl _)
              · cases List.mem_singleton.mp new
                rfl
            · intro _ positive
              exact absurd positive zero
            · intro _ _
              refine ⟨_, rfl, (timers other).trans ?_⟩
              rw [quiet, if_pos rfl]
              rfl
          · refine (counted.tells other entry there).keeps ?_ (Nat.le_succ _) ?_ ?_ id
            · have same := count other
              rw [if_neg different] at same
              exact same
            · intro timer older owner pending
              rcases List.mem_append.mp pending with old | new
              · exact old
              · cases List.mem_singleton.mp new
                exact absurd older (Nat.lt_irrefl _)
            · exact (timers other).trans (by rw [if_neg different, List.append_nil])

/-- A session is made, with a request of its own. -/
theorem Counted.makes (counted : endpoint.Counted) {index : Nat} {request : McpRequest}
    (found : endpoint.requests[index]? = some request) (connecting : request.task = .connecting) :
    Counted { endpoint with
      records := endpoint.records ++ [⟨1, true, none⟩]
      sessions := endpoint.sessions ++ [endpoint.records.length]
      requests := endpoint.requests.set index
        { request with session := some endpoint.records.length, task := .handling } } := by
  have foreign : endpoint.records.length ∉ endpoint.sessions := fun listed =>
    Nat.lt_irrefl _ (counted.known _ listed)
  have none : ∀ request ∈ endpoint.requests,
      ¬ request.isActive endpoint.records.length = true := by
    intro request listed active
    unfold McpRequest.isActive at active
    rw [Bool.and_eq_true, decide_eq_true_eq] at active
    exact Nat.lt_irrefl _ (counted.owned request listed _ active.1)
  have idle : ∀ other, request.isActive other = false := by
    intro other
    simp [McpRequest.isActive, connecting]
  have counts := countP_set
    { request with session := some endpoint.records.length, task := .handling } found
  refine ⟨?_, ?_, ?_, counted.numbered, ?_, ?_⟩
  · refine List.nodup_append.mpr ⟨counted.distinct, List.nodup_singleton _, ?_⟩
    intro session listed other new same
    rw [same, List.mem_singleton.mp new] at listed
    exact foreign listed
  · intro session listed
    rw [List.length_append, List.length_singleton]
    rcases List.mem_append.mp listed with old | new
    · exact Nat.lt_succ_of_lt (counted.known session old)
    · rw [List.mem_singleton.mp new]
      exact Nat.lt_succ_self _
  · intro other listed session belongs
    rw [List.length_append, List.length_singleton]
    rcases List.mem_or_eq_of_mem_set listed with old | rfl
    · exact Nat.lt_succ_of_lt (counted.owned other old session belongs)
    · cases belongs
      exact Nat.lt_succ_self _
  · intro timer pending
    rw [List.length_append, List.length_singleton]
    exact Nat.lt_succ_of_lt (counted.placed timer pending)
  · intro session record there
    rcases Nat.lt_trichotomy session endpoint.records.length with old | rfl | beyond
    · rw [List.getElem?_append_left old] at there
      have different : session ≠ endpoint.records.length := Nat.ne_of_lt old
      refine (counted.tells session record there).keeps ?_ (Nat.le_refl _)
        (fun _ _ _ pending => pending) rfl ?_
      · have same := counts session
        rw [idle] at same
        simpa [McpRequest.isActive, Ne.symm different] using same
      · intro listed
        rcases List.mem_append.mp listed with known | new
        · exact known
        · exact absurd (List.mem_singleton.mp new) different
    · rw [List.getElem?_append_right (Nat.le_refl _), Nat.sub_self] at there
      cases there
      refine ⟨?_, nofun, nofun, ?_, nofun⟩
      · have own := counts endpoint.records.length
        rw [idle, List.countP_eq_zero.mpr none] at own
        simpa [McpRequest.isActive] using own.symm
      · intro _ _
        refine List.filter_eq_nil_iff.mpr fun timer pending mine => ?_
        have placed := counted.placed timer pending
        rw [decide_eq_true_eq] at mine
        rw [mine] at placed
        exact Nat.lt_irrefl _ placed
    · rw [List.getElem?_eq_none (by simp; omega)] at there
      cases there

theorem Counted.consumes (counted : endpoint.Counted) {index : Nat} {request : McpRequest}
    (found : endpoint.requests[index]? = some request) (handling : request.task = .handling)
    (body : Bool) :
    (endpoint.finishSessionRequestWhenConsumed index request body).Counted := by
  unfold finishSessionRequestWhenConsumed
  split
  · exact counted.setTask _ found fun session => by simp [McpRequest.isActive, handling]
  · exact counted.finishSession found (.inl handling)

theorem Counted.connected (counted : endpoint.Counted) {index : Nat} {request : McpRequest}
    (found : endpoint.requests[index]? = some request) (connecting : request.task = .connecting)
    (body : Bool) : (endpoint.connected index request body).Counted :=
  (counted.makes found connecting).consumes
    (List.getElem?_set_self (List.getElem?_eq_some_iff.mp found).1) rfl body

/-- An initialization timer is set or cleared, and sessions leave the map. -/
theorem Counted.leaves (counted : endpoint.Counted) (session : Nat) {sessions : List Nat}
    (waits : Bool) (distinct : sessions.Nodup) (fewer : sessions ⊆ endpoint.sessions) :
    Counted { endpoint.modifyRecord session fun record =>
      { record with initializationTimer := waits } with sessions := sessions } := by
  have same : (endpoint.records.modify session fun record =>
      { record with initializationTimer := waits }).length = endpoint.records.length :=
    List.length_modify _ _ _
  refine ⟨distinct, ?_, ?_, counted.numbered, ?_, ?_⟩
  · intro other listed
    exact Nat.lt_of_lt_of_eq (counted.known other (fewer listed)) same.symm
  · intro request listed other belongs
    exact Nat.lt_of_lt_of_eq (counted.owned request listed other belongs) same.symm
  · intro timer pending
    exact Nat.lt_of_lt_of_eq (counted.placed timer pending) same.symm
  · intro other entry there
    change (endpoint.records.modify session _)[other]? = some entry at there
    rw [List.getElem?_modify] at there
    obtain ⟨record, found, rfl⟩ := Option.map_eq_some_iff.mp there
    have tells := counted.tells other record found
    split
    · exact ⟨tells.count, tells.fresh, tells.owner, fun inside => tells.busy (fewer inside),
        fun inside => tells.idle (fewer inside)⟩
    · exact ⟨tells.count, tells.fresh, tells.owner, fun inside => tells.busy (fewer inside),
        fun inside => tells.idle (fewer inside)⟩

theorem Counted.answered (counted : endpoint.Counted) {index : Nat} {request : McpRequest}
    (found : endpoint.requests[index]? = some request) (handling : request.task = .handling)
    (answer : Option McpAnswer) : (endpoint.answered index request answer).Counted := by
  cases answer with
  | none => exact counted.finishSession found (.inl handling)
  | some answer =>
      unfold McpEndpoint.answered
      dsimp only
      split
      · cases request.session with
        | none => exact counted.consumes found handling _
        | some session =>
            exact (counted.leaves session false counted.distinct
              (List.Subset.refl _)).consumes found handling _
      · exact counted.consumes found handling _

/-- A session that has left the map loses timers. -/
theorem Counted.loses (counted : endpoint.Counted) {session : Nat} {sessions : List Nat}
    {timers : List (Nat × Nat)} (distinct : sessions.Nodup)
    (fewer : sessions ⊆ endpoint.sessions) (left : session ∉ sessions)
    (subset : timers ⊆ endpoint.idleTimers)
    (others : ∀ other ≠ session,
      timers.filter (·.2 = other) = endpoint.timersOf other) :
    Counted { endpoint with idleTimers := timers, sessions := sessions } where
  distinct := distinct
  known other listed := counted.known other (fewer listed)
  owned := counted.owned
  numbered timer pending := counted.numbered timer (subset pending)
  placed timer pending := counted.placed timer (subset pending)
  tells other record found := by
    have tells := counted.tells other record found
    by_cases same : other = session
    · subst same
      exact ⟨tells.count, tells.fresh,
        fun timer recorded owner pending => tells.owner timer recorded owner (subset pending),
        fun inside => absurd inside left, fun inside => absurd inside left⟩
    · exact tells.keeps rfl (Nat.le_refl _) (fun _ _ _ pending => subset pending)
        (others other same) (fun inside => fewer inside)

/-- A session that is left has no timers. -/
theorem Counted.clearTimers (counted : endpoint.Counted) {session : Nat} {sessions : List Nat}
    (distinct : sessions.Nodup) (fewer : sessions ⊆ endpoint.sessions)
    (left : session ∉ sessions) :
    Counted { endpoint.clearTimers session with sessions := sessions } := by
  have cleared : Counted { endpoint.clearIdleTimer session with sessions := sessions } := by
    refine counted.loses distinct fewer left (List.filter_subset_self _) fun other different => ?_
    cases found : endpoint.records[session]? with
    | none =>
        have all : (endpoint.clearIdleTimer session).idleTimers = endpoint.idleTimers := by
          simp [clearIdleTimer, found]
        exact congrArg (List.filter _) all
    | some record => exact (timersOf_clearIdleTimer counted found).trans (if_neg different)
  exact cleared.leaves session false distinct (List.Subset.refl _)

theorem Counted.transportClosed (counted : endpoint.Counted) (session : Nat) :
    (endpoint.transportClosed session).Counted := by
  unfold McpEndpoint.transportClosed
  split
  · exact counted.clearTimers (counted.distinct.erase session) (List.erase_subset)
      (fun listed => (List.Nodup.mem_erase_iff counted.distinct).mp listed |>.1 rfl)
  · exact counted

theorem Counted.idleTimeout (counted : endpoint.Counted) {timer : Nat × Nat}
    (pending : timer ∈ endpoint.idleTimers) : (endpoint.idleTimeout timer).Counted := by
  have others : ∀ other ≠ timer.2, (endpoint.idleTimers.erase timer).filter (·.2 = other) =
      endpoint.timersOf other := by
    intro other different
    rw [← List.erase_filter, List.erase_of_not_mem]
    · rfl
    · intro listed
      exact different (by simpa [eq_comm] using (List.mem_filter.mp listed).2)
  unfold McpEndpoint.idleTimeout
  dsimp only
  split
  · rename_i waits
    have left : timer.2 ∉ endpoint.sessions := by
      intro inside
      have active := waits.resolve_left (not_not.mpr inside)
      have bound := counted.known _ inside
      obtain ⟨record, found⟩ : ∃ record, endpoint.records[timer.2]? = some record :=
        ⟨_, List.getElem?_eq_getElem bound⟩
      rw [found] at active
      have quiet := (counted.tells _ record found).busy inside active
      have mine : timer ∈ endpoint.timersOf timer.2 :=
        List.mem_filter.mpr ⟨pending, by simp⟩
      rw [quiet] at mine
      cases mine
    exact counted.loses counted.distinct (List.Subset.refl _) left List.erase_subset others
  · exact counted.loses (counted.distinct.erase _) List.erase_subset
      (fun listed => (List.Nodup.mem_erase_iff counted.distinct).mp listed |>.1 rfl)
      List.erase_subset others

theorem Counted.giveUp (counted : endpoint.Counted) : endpoint.giveUp.Counted := by
  have folded : ∀ (sessions : List Nat) (left : McpEndpoint), left.Counted → left.sessions = [] →
      (sessions.foldl McpEndpoint.clearTimers left).Counted := by
    intro sessions
    induction sessions with
    | nil => exact fun _ counted _ => counted
    | cons session sessions ih =>
        intro left counted none
        refine ih _ ?_ none
        exact counted.clearTimers counted.distinct (List.Subset.refl _)
          (fun listed => by cases none ▸ (listed : session ∈ left.sessions))
  exact folded endpoint.sessions _ (counted.loses List.nodup_nil (List.nil_subset _)
    (List.not_mem_nil : 0 ∉ []) (List.Subset.refl _) fun _ _ => rfl) rfl

theorem Counted.step {label : McpLabel} (counted : endpoint.Counted)
    (stepped : mcpEndpoint.step endpoint label = some next) : next.Counted := by
  have found : ∀ {index : Nat} {task : McpTask} {request : McpRequest},
      endpoint.requests[index]?.filter (·.task = task) = some request →
      endpoint.requests[index]? = some request ∧ request.task = task := by
    intro index task request filtered
    simpa using Option.filter_eq_some_iff.mp filtered
  cases label with
  | request method session =>
      obtain rfl := Option.some.inj stepped
      unfold handleRequest
      split
      · exact counted
      · split
        · rename_i session named
          exact counted.trackSessionRequest method
            (by simpa using (Option.filter_eq_some_iff.mp named).2)
        · exact counted.append rfl
  | parsed index initializes =>
      obtain ⟨request, filtered, rfl⟩ := Option.map_eq_some_iff.mp stepped
      obtain ⟨there, parsing⟩ := found filtered
      refine counted.setTask _ there fun session => ?_
      unfold McpRequest.isActive
      cases initializes <;> simp [parsing]
  | connected index body =>
      obtain ⟨request, filtered, rfl⟩ := Option.map_eq_some_iff.mp stepped
      obtain ⟨there, connecting⟩ := found filtered
      cases body with
      | none =>
          exact counted.setTask _ there fun session => by simp [McpRequest.isActive, connecting]
      | some body => exact counted.connected there connecting body
  | answered index answer =>
      obtain ⟨request, filtered, rfl⟩ := Option.map_eq_some_iff.mp stepped
      obtain ⟨there, handling⟩ := found filtered
      exact counted.answered there handling answer
  | consumed index =>
      obtain ⟨request, filtered, rfl⟩ := Option.map_eq_some_iff.mp stepped
      obtain ⟨there, streaming⟩ := found filtered
      exact counted.finishSession there (.inr streaming)
  | finished index =>
      obtain ⟨request, filtered, rfl⟩ := Option.map_eq_some_iff.mp stepped
      obtain ⟨there, leaving⟩ := found filtered
      exact counted.setTask _ there fun session => by simp [McpRequest.isActive, leaving]
  | initializationTimer session =>
      simp only [mcpEndpoint] at stepped
      split at stepped
      · obtain rfl := Option.some.inj stepped
        exact counted.leaves session false (counted.distinct.erase session) List.erase_subset
      · cases stepped
  | idleTimer timer =>
      simp only [mcpEndpoint] at stepped
      split at stepped
      · rename_i pending
        obtain rfl := Option.some.inj stepped
        exact counted.idleTimeout pending
      · cases stepped
  | transportClosed session =>
      obtain rfl := Option.some.inj stepped
      exact counted.transportClosed session
  | startOperation =>
      simp only [mcpEndpoint] at stepped
      split at stepped
      · obtain rfl := Option.some.inj stepped
        exact counted.same rfl rfl rfl rfl rfl
      · obtain rfl := Option.some.inj stepped
        exact counted
  | finishOperation index =>
      simp only [mcpEndpoint] at stepped
      split at stepped
      · obtain rfl := Option.some.inj stepped
        exact counted.same rfl rfl rfl rfl rfl
      · cases stepped
  | close =>
      obtain rfl := Option.some.inj stepped
      unfold close
      split
      · exact counted
      · exact counted.same rfl rfl rfl rfl rfl
  | proceed =>
      simp only [mcpEndpoint, proceed] at stepped
      split at stepped
      · split at stepped
        · obtain rfl := Option.some.inj stepped
          exact counted.same rfl rfl rfl rfl rfl
        · cases stepped
      · split at stepped
        · obtain rfl := Option.some.inj stepped
          exact counted.giveUp.same rfl rfl rfl rfl rfl
        · cases stepped
      · obtain rfl := Option.some.inj stepped
        exact counted.same rfl rfl rfl rfl rfl
      · cases stepped

theorem counted {labels : List McpLabel} {target : McpEndpoint}
    (run : mcpEndpoint.Run (fun _ _ => True) new labels target) : target.Counted := by
  have keep : ∀ endpoint label next, True → mcpEndpoint.step endpoint label = some next →
      endpoint.Counted → next.Counted := fun _ _ _ _ stepped counted => counted.step stepped
  exact run.invariant keep counted_new

/-- **Counts and timers.** In every run, a session counts its requests in progress, and while it is
in the map, one idle timer of it is pending if there are none, and no timer if there are some. -/
theorem sessions_counted {labels : List McpLabel} {target : McpEndpoint}
    (run : mcpEndpoint.Run (fun _ _ => True) new labels target) {session : Nat}
    {record : McpSessionRecord} (found : target.records[session]? = some record) :
    record.activeRequests = target.requests.countP (·.isActive session) ∧
      (session ∈ target.sessions →
        (target.timersOf session).length = if record.activeRequests = 0 then 1 else 0) := by
  have tells := (counted run).tells session record found
  refine ⟨tells.count, fun inside => ?_⟩
  by_cases zero : record.activeRequests = 0
  · obtain ⟨timer, _, pending⟩ := tells.idle inside zero
    rw [pending, if_pos zero]
    rfl
  · rw [tells.busy inside (by omega), if_neg zero]
    rfl

/-- A second request comes and ends while the response to the first is read. -/
theorem sessions_counted_two : ∃ target, mcpEndpoint.Run (fun _ _ => True) new
      [.request .post none, .parsed 0 true, .connected 0 (some true), .request .post (some 0),
        .answered 1 (some ⟨true, true, true⟩), .consumed 1] target ∧
    target.records[0]? = some ⟨1, false, none⟩ ∧
    1 = target.requests.countP (·.isActive 0) ∧
    (0 ∈ target.sessions → (target.timersOf 0).length = if 1 = 0 then 1 else 0) := by
  obtain ⟨target, run, record⟩ : ∃ target, mcpEndpoint.Run (fun _ _ => True) new
      [.request .post none, .parsed 0 true, .connected 0 (some true), .request .post (some 0),
        .answered 1 (some ⟨true, true, true⟩), .consumed 1] target ∧
      target.records[0]? = some ⟨1, false, none⟩ := Machine.evaluate_view (by decide)
  exact ⟨target, run, record, sessions_counted run record⟩

end McpEndpoint

end Kb1Daemon
