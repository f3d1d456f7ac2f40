import Kb1Daemon.Mcp.Endpoint

/-! # The shutdown of the MCP endpoint

Once the endpoint has closed, no tracked request, no operation and no session is left, and none
comes (`McpEndpoint.close_drains`). A session with a request in progress is cut off by its
initialization timer, by the close of its transport, or, for a `GET`, by the shutdown
(`McpEndpoint.session_cut_off`).
-/

namespace Kb1Daemon

namespace McpEndpoint

variable {endpoint next : McpEndpoint}

theorem mem_activeHttpRequests {index : Nat} :
    index ∈ endpoint.activeHttpRequests ↔
      ∃ request, endpoint.requests[index]? = some request ∧ request.isTracked = true := by
  unfold activeHttpRequests
  rw [List.mem_filter, List.mem_range, Option.any_eq_true]
  constructor
  · rintro ⟨_, request, found, tracked⟩
    exact ⟨request, found, tracked⟩
  · rintro ⟨request, found, tracked⟩
    exact ⟨(List.getElem?_eq_some_iff.mp found).1, request, found, tracked⟩

theorem mem_activeOperations {index : Nat} :
    index ∈ endpoint.activeOperations ↔ endpoint.operations[index]? = some false := by
  unfold activeOperations
  rw [List.mem_filter, List.mem_range, decide_eq_true_eq]
  exact ⟨And.right, fun found => ⟨(List.getElem?_eq_some_iff.mp found).1, found⟩⟩

/-- What a close has waited for is over: no request is taken, those that are in progress are waited
for, and so on from stage to stage. -/
structure Drained (endpoint : McpEndpoint) : Prop where
  posted : ∀ request ∈ endpoint.requests,
    request.task = .parsing ∨ request.task = .connecting → request.method ≠ .get
  shut : endpoint.closing ≠ none → endpoint.acceptingRequests = false
  requests : ∀ waiting, endpoint.closing = some (.drainingRequests waiting) →
    endpoint.activeHttpRequests ⊆ waiting
  quiet : endpoint.closing.any McpClose.isQuiet = true →
    endpoint.acceptingOperations = false ∧ endpoint.activeHttpRequests = []
  operations : ∀ waiting, endpoint.closing = some (.drainingOperations waiting) →
    endpoint.activeOperations ⊆ waiting
  settled : endpoint.closing.any McpClose.isOver = true →
    endpoint.activeOperations = [] ∧ endpoint.sessions = []

theorem drained_new : new.Drained := by
  constructor <;> simp [new]

/-- A step that starts nothing behind a closed gate. -/
structure Settles (endpoint next : McpEndpoint) : Prop where
  closing : next.closing = endpoint.closing
  acceptingRequests : next.acceptingRequests = endpoint.acceptingRequests
  acceptingOperations : next.acceptingOperations = endpoint.acceptingOperations
  posted : ∀ request ∈ next.requests,
    request.task = .parsing ∨ request.task = .connecting → request.method ≠ .get
  requests : endpoint.acceptingRequests = false →
    next.activeHttpRequests ⊆ endpoint.activeHttpRequests
  operations : endpoint.acceptingOperations = false →
    next.activeOperations ⊆ endpoint.activeOperations
  sessions : endpoint.activeHttpRequests = [] → next.sessions ⊆ endpoint.sessions

theorem Drained.settles (drained : endpoint.Drained) (settles : endpoint.Settles next) :
    next.Drained := by
  obtain ⟨closing, shut, gate, posted, requests, operations, sessions⟩ := settles
  refine ⟨posted, ?_, ?_, ?_, ?_, ?_⟩
  · rw [closing, shut]
    exact drained.shut
  · intro waiting stage
    rw [closing] at stage
    refine List.Subset.trans (requests (drained.shut ?_)) (drained.requests waiting stage)
    rw [stage]
    exact nofun
  · intro stage
    rw [closing] at stage
    obtain ⟨closed, empty⟩ := drained.quiet stage
    have begun : endpoint.closing ≠ none := by
      intro idle
      rw [idle] at stage
      cases stage
    refine ⟨gate.trans closed, List.eq_nil_of_subset_nil ?_⟩
    exact empty ▸ requests (drained.shut begun)
  · intro waiting stage
    rw [closing] at stage
    have quiet := drained.quiet (by rw [stage]; rfl)
    exact List.Subset.trans (operations quiet.1) (drained.operations waiting stage)
  · intro stage
    rw [closing] at stage
    have quiet := drained.quiet (McpClose.quiet_of_over stage)
    obtain ⟨ended, left⟩ := drained.settled stage
    exact ⟨List.eq_nil_of_subset_nil (ended ▸ operations quiet.1),
      List.eq_nil_of_subset_nil (left ▸ sessions quiet.2)⟩

/-- A step that leaves requests and operations alone. -/
theorem Drained.still (drained : endpoint.Drained) (closing : next.closing = endpoint.closing)
    (shut : next.acceptingRequests = endpoint.acceptingRequests)
    (gate : next.acceptingOperations = endpoint.acceptingOperations)
    (requests : next.requests = endpoint.requests)
    (operations : next.operations = endpoint.operations)
    (sessions : next.sessions ⊆ endpoint.sessions) : endpoint.Settles next where
  closing := closing
  acceptingRequests := shut
  acceptingOperations := gate
  posted := by
    rw [requests]
    exact drained.posted
  requests _ := by
    rw [activeHttpRequests, requests]
    exact List.Subset.refl _
  operations _ := by
    rw [activeOperations, operations]
    exact List.Subset.refl _
  sessions _ := sessions

/-- A request that is not over goes on. -/
theorem Drained.changes (drained : endpoint.Drained) {index : Nat} {request : McpRequest}
    (changed : McpRequest) (found : endpoint.requests[index]? = some request)
    (going : request.task ≠ .done)
    (method : changed.method = request.method)
    (waits : changed.task = .parsing ∨ changed.task = .connecting → request.task = .parsing)
    (requests : next.requests = endpoint.requests.set index changed)
    (closing : next.closing = endpoint.closing)
    (shut : next.acceptingRequests = endpoint.acceptingRequests)
    (gate : next.acceptingOperations = endpoint.acceptingOperations)
    (operations : next.operations = endpoint.operations)
    (sessions : endpoint.activeHttpRequests = [] → next.sessions ⊆ endpoint.sessions) :
    endpoint.Settles next where
  closing := closing
  acceptingRequests := shut
  acceptingOperations := gate
  posted := by
    rw [requests]
    intro other listed early
    rcases List.mem_or_eq_of_mem_set listed with old | rfl
    · exact drained.posted other old early
    · rw [method]
      exact drained.posted request (List.mem_of_getElem? found) (.inl (waits early))
  requests _ := by
    intro other tracked
    obtain ⟨entry, there, active⟩ := mem_activeHttpRequests.mp tracked
    rw [requests] at there
    rcases List.getElem?_set_cases there with ⟨rfl, rfl⟩ | ⟨_, there⟩
    · refine mem_activeHttpRequests.mpr ⟨request, found, ?_⟩
      unfold McpRequest.isTracked at *
      rw [method] at active
      simp_all
    · exact mem_activeHttpRequests.mpr ⟨entry, there, active⟩
  operations _ := by
    rw [activeOperations, operations]
    exact List.Subset.refl _
  sessions := sessions

theorem finishSession_frame (index : Nat) (request : McpRequest) :
    (endpoint.finishSession index request).requests =
        (endpoint.setTask index request.rest).requests ∧
      (endpoint.finishSession index request).closing = endpoint.closing ∧
      (endpoint.finishSession index request).acceptingRequests = endpoint.acceptingRequests ∧
      (endpoint.finishSession index request).acceptingOperations = endpoint.acceptingOperations ∧
      (endpoint.finishSession index request).operations = endpoint.operations ∧
      (endpoint.finishSession index request).sessions = endpoint.sessions := by
  unfold finishSession
  cases request.session with
  | none => exact ⟨rfl, rfl, rfl, rfl, rfl, rfl⟩
  | some session =>
      dsimp only [Option.elim_some]
      unfold finishSessionRequest
      dsimp only
      split <;> exact ⟨rfl, rfl, rfl, rfl, rfl, rfl⟩

/-- The session is done with a request. -/
theorem Drained.finishes (drained : endpoint.Drained) {index : Nat} {request : McpRequest}
    (found : endpoint.requests[index]? = some request) (going : request.task ≠ .done) :
    endpoint.Settles (endpoint.finishSession index request) := by
  obtain ⟨requests, closing, shut, gate, operations, sessions⟩ :=
    @finishSession_frame endpoint index request
  rw [setTask_eq _ found] at requests
  refine drained.changes { request with task := request.rest } found going rfl ?_ requests closing
    shut gate operations fun _ => by rw [sessions]; exact List.Subset.refl _
  unfold McpRequest.rest
  dsimp only
  split <;> simp

theorem Drained.goesOn (drained : endpoint.Drained) {index : Nat} {request : McpRequest}
    (task : McpTask) (found : endpoint.requests[index]? = some request)
    (going : request.task ≠ .done)
    (waits : task = .parsing ∨ task = .connecting → request.task = .parsing) :
    endpoint.Settles (endpoint.setTask index task) := by
  rw [setTask_eq task found]
  exact drained.changes { request with task := task } found going rfl waits rfl rfl rfl rfl rfl
    fun _ => List.Subset.refl _

theorem consumes_frame (index : Nat) (request : McpRequest) (body : Bool) :
    (endpoint.finishSessionRequestWhenConsumed index request body).requests =
        (endpoint.setTask index (if body then .streaming else request.rest)).requests ∧
      (endpoint.finishSessionRequestWhenConsumed index request body).closing =
        endpoint.closing ∧
      (endpoint.finishSessionRequestWhenConsumed index request body).acceptingRequests =
        endpoint.acceptingRequests ∧
      (endpoint.finishSessionRequestWhenConsumed index request body).acceptingOperations =
        endpoint.acceptingOperations ∧
      (endpoint.finishSessionRequestWhenConsumed index request body).operations =
        endpoint.operations ∧
      (endpoint.finishSessionRequestWhenConsumed index request body).sessions =
        endpoint.sessions := by
  cases body with
  | false => exact finishSession_frame index request
  | true => exact ⟨rfl, rfl, rfl, rfl, rfl, rfl⟩

/-- An answer leaves the sessions. -/
theorem answered_sessions (index : Nat) (request : McpRequest) (answer : Option McpAnswer) :
    (endpoint.answered index request answer).sessions = endpoint.sessions := by
  cases answer with
  | none => exact (finishSession_frame index request).2.2.2.2.2
  | some answer =>
      refine (consumes_frame index request answer.body).2.2.2.2.2.trans ?_
      split
      · cases request.session <;> rfl
      · rfl

theorem not_early (request : McpRequest) (body : Bool) :
    ¬ ((if body then McpTask.streaming else request.rest) = .parsing ∨
      (if body then McpTask.streaming else request.rest) = .connecting) := by
  unfold McpRequest.rest
  cases body <;> cases request.method <;> simp

/-- A session answers a request. -/
theorem Drained.consumes (drained : endpoint.Drained) {acknowledged : McpEndpoint} {index : Nat}
    {request : McpRequest} (found : endpoint.requests[index]? = some request)
    (going : request.task ≠ .done) (body : Bool)
    (requests : acknowledged.requests = endpoint.requests)
    (closing : acknowledged.closing = endpoint.closing)
    (shut : acknowledged.acceptingRequests = endpoint.acceptingRequests)
    (gate : acknowledged.acceptingOperations = endpoint.acceptingOperations)
    (operations : acknowledged.operations = endpoint.operations)
    (sessions : acknowledged.sessions = endpoint.sessions) :
    endpoint.Settles (acknowledged.finishSessionRequestWhenConsumed index request body) := by
  obtain ⟨changes, same, stays, kept, runs, members⟩ :=
    @consumes_frame acknowledged index request body
  rw [setTask_eq _ (requests ▸ found), requests] at changes
  refine drained.changes { request with task := if body then .streaming else request.rest } found
    going rfl (fun early => absurd early (not_early request body)) changes (same.trans closing)
    (stays.trans shut) (kept.trans gate) (runs.trans operations) fun _ => ?_
  rw [members, sessions]
  exact List.Subset.refl _

/-- An answer settles its request. -/
theorem Drained.answered (drained : endpoint.Drained) {index : Nat} {request : McpRequest}
    (found : endpoint.requests[index]? = some request) (going : request.task ≠ .done)
    (answer : Option McpAnswer) : endpoint.Settles (endpoint.answered index request answer) := by
  cases answer with
  | none => exact drained.finishes found going
  | some answer =>
      unfold McpEndpoint.answered
      dsimp only
      split
      · cases request.session with
        | none => exact drained.consumes found going answer.body rfl rfl rfl rfl rfl rfl
        | some session => exact drained.consumes found going answer.body rfl rfl rfl rfl rfl rfl
      · exact drained.consumes found going answer.body rfl rfl rfl rfl rfl rfl

/-- A connected transport settles its request. -/
theorem Drained.connected (drained : endpoint.Drained) {index : Nat} {request : McpRequest}
    (found : endpoint.requests[index]? = some request) (connecting : request.task = .connecting)
    (body : Bool) : endpoint.Settles (endpoint.connected index request body) := by
  have inside := (List.getElem?_eq_some_iff.mp found).1
  have going : request.task ≠ .done := by
    rw [connecting]
    exact nofun
  obtain ⟨changes, same, stays, kept, runs, members⟩ := @consumes_frame { endpoint with
      records := endpoint.records ++ [⟨1, true, none⟩]
      sessions := endpoint.sessions ++ [endpoint.records.length]
      requests := endpoint.requests.set index
        { request with session := some endpoint.records.length, task := .handling } }
    index { request with session := some endpoint.records.length, task := .handling } body
  rw [setTask_eq _ (List.getElem?_set_self inside)] at changes
  dsimp only at changes
  rw [List.set_set] at changes
  refine drained.changes { request with
      session := some endpoint.records.length, task := if body then .streaming else request.rest }
    found going rfl (fun early => absurd early (not_early request body)) changes same stays kept
    runs fun none => ?_
  have tracked : index ∈ endpoint.activeHttpRequests := by
    refine mem_activeHttpRequests.mpr ⟨request, found, ?_⟩
    have method := drained.posted request (List.mem_of_getElem? found) (.inr connecting)
    simp [McpRequest.isTracked, method, going]
  rw [none] at tracked
  cases tracked

/-- A request is taken as long as the endpoint takes any. -/
theorem Drained.handles (drained : endpoint.Drained) (method : HttpMethod)
    (session : Option Nat) : endpoint.Settles (endpoint.handleRequest method session) := by
  unfold handleRequest
  split
  · exact drained.still rfl rfl rfl rfl rfl (List.Subset.refl _)
  · rename_i accepts
    have posted : ∀ request : McpRequest,
        (request.task = .parsing ∨ request.task = .connecting → request.method ≠ .get) →
        ∀ other ∈ endpoint.requests ++ [request],
          other.task = .parsing ∨ other.task = .connecting → other.method ≠ .get := by
      intro request late other listed
      rcases List.mem_append.mp listed with old | new
      · exact drained.posted other old
      · rw [List.mem_singleton.mp new]
        exact late
    have open_ : ∀ {conclusion : Prop}, endpoint.acceptingRequests = false → conclusion := by
      intro conclusion shut
      simp [shut] at accepts
    split
    · exact ⟨rfl, rfl, rfl, posted _ (by simp), open_, fun _ => List.Subset.refl _,
        fun _ => List.Subset.refl _⟩
    · refine ⟨rfl, rfl, rfl, posted _ ?_, open_, fun _ => List.Subset.refl _,
        fun _ => List.Subset.refl _⟩
      cases method <;> simp

theorem giveUp_frame :
    endpoint.giveUp.requests = endpoint.requests ∧ endpoint.giveUp.sessions = [] ∧
      endpoint.giveUp.operations = endpoint.operations ∧
      endpoint.giveUp.acceptingRequests = endpoint.acceptingRequests ∧
      endpoint.giveUp.acceptingOperations = endpoint.acceptingOperations := by
  have folded : ∀ (sessions : List Nat) (left : McpEndpoint),
      (sessions.foldl clearTimers left).requests = left.requests ∧
        (sessions.foldl clearTimers left).sessions = left.sessions ∧
        (sessions.foldl clearTimers left).operations = left.operations ∧
        (sessions.foldl clearTimers left).acceptingRequests = left.acceptingRequests ∧
        (sessions.foldl clearTimers left).acceptingOperations = left.acceptingOperations := by
    intro sessions
    induction sessions with
    | nil => exact fun _ => ⟨rfl, rfl, rfl, rfl, rfl⟩
    | cons session sessions ih => exact fun left => ih (left.clearTimers session)
  exact folded endpoint.sessions _

theorem Drained.proceeds (drained : endpoint.Drained) (moved : endpoint.proceed = some next) :
    next.Drained := by
  have emptied : ∀ {active waiting : List Nat}, active ⊆ waiting →
      (∀ index ∈ waiting, index ∉ active) → active = [] := by
    intro active waiting inside settled
    exact List.eq_nil_iff_forall_not_mem.mpr fun index listed =>
      settled index (inside listed) listed
  unfold proceed at moved
  split at moved
  · rename_i waiting stage
    split at moved
    · rename_i settled
      obtain rfl := Option.some.inj moved
      have shut := drained.shut (by rw [stage]; exact nofun)
      refine ⟨drained.posted, fun _ => shut, nofun,
        fun _ => ⟨rfl, emptied (drained.requests waiting stage) settled⟩, ?_, nofun⟩
      rintro _ ⟨⟩
      exact List.Subset.refl _
    · cases moved
  · rename_i waiting stage
    split at moved
    · rename_i settled
      obtain rfl := Option.some.inj moved
      have shut := drained.shut (by rw [stage]; exact nofun)
      have quiet := drained.quiet (by rw [stage]; rfl)
      obtain ⟨requests, sessions, operations, taken, gate⟩ := @giveUp_frame endpoint
      refine ⟨?_, fun _ => taken.trans shut, nofun, fun _ => ⟨gate.trans quiet.1, ?_⟩, nofun,
        fun _ => ⟨?_, sessions⟩⟩
      · intro request listed
        exact drained.posted request (requests ▸ listed)
      · refine Eq.trans ?_ quiet.2
        change (List.range endpoint.giveUp.requests.length).filter _ = _
        rw [requests]
        rfl
      · refine Eq.trans ?_ (emptied (drained.operations waiting stage) settled)
        change (List.range endpoint.giveUp.operations.length).filter _ = _
        rw [operations]
        rfl
    · cases moved
  · rename_i stage
    obtain rfl := Option.some.inj moved
    exact ⟨drained.posted, fun _ => drained.shut (by rw [stage]; exact nofun), nofun,
      fun _ => drained.quiet (by rw [stage]; rfl), nofun,
      fun _ => drained.settled (by rw [stage]; rfl)⟩
  · cases moved

theorem Drained.step {label : McpLabel} (drained : endpoint.Drained)
    (stepped : mcpEndpoint.step endpoint label = some next) : next.Drained := by
  have found : ∀ {index : Nat} {task : McpTask} {request : McpRequest},
      endpoint.requests[index]?.filter (·.task = task) = some request →
      endpoint.requests[index]? = some request ∧ request.task = task := by
    intro index task request filtered
    simpa using Option.filter_eq_some_iff.mp filtered
  cases label with
  | request method session =>
      obtain rfl := Option.some.inj stepped
      exact drained.settles (drained.handles method session)
  | parsed index initializes =>
      obtain ⟨request, filtered, rfl⟩ := Option.map_eq_some_iff.mp stepped
      obtain ⟨there, parsing⟩ := found filtered
      exact drained.settles (drained.goesOn _ there (by simp [parsing]) fun _ => parsing)
  | connected index body =>
      obtain ⟨request, filtered, rfl⟩ := Option.map_eq_some_iff.mp stepped
      obtain ⟨there, connecting⟩ := found filtered
      cases body with
      | none => exact drained.settles (drained.goesOn _ there (by simp [connecting]) (by simp))
      | some body => exact drained.settles (drained.connected there connecting body)
  | answered index answer =>
      obtain ⟨request, filtered, rfl⟩ := Option.map_eq_some_iff.mp stepped
      obtain ⟨there, handling⟩ := found filtered
      exact drained.settles (drained.answered there (by simp [handling]) answer)
  | consumed index =>
      obtain ⟨request, filtered, rfl⟩ := Option.map_eq_some_iff.mp stepped
      obtain ⟨there, streaming⟩ := found filtered
      exact drained.settles (drained.finishes there (by simp [streaming]))
  | finished index =>
      obtain ⟨request, filtered, rfl⟩ := Option.map_eq_some_iff.mp stepped
      obtain ⟨there, leaving⟩ := found filtered
      exact drained.settles (drained.goesOn _ there (by simp [leaving]) (by simp))
  | initializationTimer session =>
      simp only [mcpEndpoint] at stepped
      split at stepped
      · obtain rfl := Option.some.inj stepped
        exact drained.settles (drained.still rfl rfl rfl rfl rfl List.erase_subset)
      · cases stepped
  | idleTimer timer =>
      simp only [mcpEndpoint] at stepped
      split at stepped
      · obtain rfl := Option.some.inj stepped
        unfold idleTimeout
        dsimp only
        split
        · exact drained.settles (drained.still rfl rfl rfl rfl rfl (List.Subset.refl _))
        · exact drained.settles (drained.still rfl rfl rfl rfl rfl List.erase_subset)
      · cases stepped
  | transportClosed session =>
      obtain rfl := Option.some.inj stepped
      unfold transportClosed
      split
      · exact drained.settles (drained.still rfl rfl rfl rfl rfl List.erase_subset)
      · exact drained
  | startOperation =>
      simp only [mcpEndpoint] at stepped
      split at stepped
      · rename_i accepts
        obtain rfl := Option.some.inj stepped
        exact drained.settles ⟨rfl, rfl, rfl, drained.posted, fun _ => List.Subset.refl _,
          fun shut => absurd (shut.symm.trans accepts) Bool.false_ne_true,
          fun _ => List.Subset.refl _⟩
      · obtain rfl := Option.some.inj stepped
        exact drained
  | finishOperation index =>
      simp only [mcpEndpoint] at stepped
      split at stepped
      · obtain rfl := Option.some.inj stepped
        refine drained.settles ⟨rfl, rfl, rfl, drained.posted, fun _ => List.Subset.refl _,
          fun _ other running => ?_, fun _ => List.Subset.refl _⟩
        have there := mem_activeOperations.mp running
        rcases List.getElem?_set_cases there with ⟨_, ended⟩ | ⟨_, there⟩
        · cases ended
        · exact mem_activeOperations.mpr there
      · cases stepped
  | close =>
      obtain rfl := Option.some.inj stepped
      unfold close
      split
      · exact drained
      · refine ⟨drained.posted, fun _ => rfl, fun waiting stage => ?_,
          fun stage => absurd stage Bool.false_ne_true, fun waiting stage => ?_,
          fun stage => absurd stage Bool.false_ne_true⟩
        · cases stage
          exact List.Subset.refl _
        · cases stage
  | proceed => exact drained.proceeds stepped

/-- A step of a closed endpoint. -/
theorem step_closed {label : McpLabel} (closed : endpoint.closing = some .closed)
    (shut : endpoint.acceptingRequests = false) (gate : endpoint.acceptingOperations = false)
    (stepped : mcpEndpoint.step endpoint label = some next) :
    next.closing = some .closed ∧ next.requests.length = endpoint.requests.length ∧
      next.operations.length = endpoint.operations.length := by
  have tasks : ∀ (left : McpEndpoint) index task,
      (left.setTask index task).requests.length = left.requests.length := fun left index task =>
    List.length_modify _ _ _
  have consumes : ∀ (left : McpEndpoint) index request body,
      left.closing = endpoint.closing → left.requests.length = endpoint.requests.length →
      left.operations = endpoint.operations →
      (left.finishSessionRequestWhenConsumed index request body).closing = some .closed ∧
        (left.finishSessionRequestWhenConsumed index request body).requests.length =
          endpoint.requests.length ∧
        (left.finishSessionRequestWhenConsumed index request body).operations.length =
          endpoint.operations.length := by
    intro left index request body same length runs
    obtain ⟨requests, closing, _, _, operations, _⟩ := @consumes_frame left index request body
    exact ⟨(closing.trans same).trans closed,
      ((congrArg List.length requests).trans (tasks _ _ _)).trans length,
      congrArg List.length (operations.trans runs)⟩
  cases label with
  | request method session =>
      obtain rfl := Option.some.inj stepped
      have same : endpoint.handleRequest method session = endpoint := by
        simp [handleRequest, shut]
      rw [same]
      exact ⟨closed, rfl, rfl⟩
  | parsed index initializes =>
      obtain ⟨_, _, rfl⟩ := Option.map_eq_some_iff.mp stepped
      exact ⟨closed, tasks _ _ _, rfl⟩
  | connected index body =>
      obtain ⟨request, _, rfl⟩ := Option.map_eq_some_iff.mp stepped
      cases body with
      | none => exact ⟨closed, tasks _ _ _, rfl⟩
      | some body => exact consumes _ index _ body rfl List.length_set rfl
  | answered index answer =>
      obtain ⟨request, _, rfl⟩ := Option.map_eq_some_iff.mp stepped
      cases answer with
      | none => exact consumes endpoint index request false rfl rfl rfl
      | some answer =>
          unfold McpEndpoint.answered
          dsimp only
          split
          · cases request.session with
            | none => exact consumes _ index request answer.body rfl rfl rfl
            | some session => exact consumes _ index request answer.body rfl rfl rfl
          · exact consumes _ index request answer.body rfl rfl rfl
  | consumed index =>
      obtain ⟨request, _, rfl⟩ := Option.map_eq_some_iff.mp stepped
      exact consumes endpoint index request false rfl rfl rfl
  | finished index =>
      obtain ⟨_, _, rfl⟩ := Option.map_eq_some_iff.mp stepped
      exact ⟨closed, tasks _ _ _, rfl⟩
  | initializationTimer session =>
      simp only [mcpEndpoint] at stepped
      split at stepped
      · obtain rfl := Option.some.inj stepped
        exact ⟨closed, rfl, rfl⟩
      · cases stepped
  | idleTimer timer =>
      simp only [mcpEndpoint] at stepped
      split at stepped
      · obtain rfl := Option.some.inj stepped
        unfold idleTimeout
        dsimp only
        split <;> exact ⟨closed, rfl, rfl⟩
      · cases stepped
  | transportClosed session =>
      obtain rfl := Option.some.inj stepped
      unfold transportClosed
      split <;> exact ⟨closed, rfl, rfl⟩
  | startOperation =>
      simp only [mcpEndpoint, gate] at stepped
      obtain rfl := Option.some.inj stepped
      exact ⟨closed, rfl, rfl⟩
  | finishOperation index =>
      simp only [mcpEndpoint] at stepped
      split at stepped
      · obtain rfl := Option.some.inj stepped
        exact ⟨closed, rfl, List.length_set⟩
      · cases stepped
  | close =>
      obtain rfl := Option.some.inj stepped
      rw [close, closed]
      exact ⟨closed, rfl, rfl⟩
  | proceed =>
      simp only [mcpEndpoint, proceed, closed] at stepped
      cases stepped

theorem drained {labels : List McpLabel} {target : McpEndpoint}
    (run : mcpEndpoint.Run (fun _ _ => True) new labels target) : target.Drained := by
  have keep : ∀ endpoint label next, True → mcpEndpoint.step endpoint label = some next →
      endpoint.Drained → next.Drained := fun _ _ _ _ stepped drained => drained.step stepped
  exact run.invariant keep drained_new

/-- **A closed endpoint is empty.** In every run, once the close has ended, every request but the
`GET` ones is over, every operation is over, no session is in the map, and no step brings one. -/
theorem close_drains {labels : List McpLabel} {target : McpEndpoint}
    (run : mcpEndpoint.Run (fun _ _ => True) new labels target)
    (closed : target.closing = some .closed) :
    (∀ request ∈ target.requests, request.method ≠ .get → request.task = .done) ∧
      (∀ ended ∈ target.operations, ended = true) ∧ target.sessions = [] ∧
      ∀ label next, mcpEndpoint.step target label = some next →
        next.closing = some .closed ∧ next.requests.length = target.requests.length ∧
        next.operations.length = target.operations.length ∧ next.sessions = [] := by
  have drained := drained run
  have settled : target.closing.any McpClose.isOver = true := by
    rw [closed]
    rfl
  obtain ⟨gate, requests⟩ := drained.quiet (McpClose.quiet_of_over settled)
  obtain ⟨operations, sessions⟩ := drained.settled settled
  refine ⟨?_, ?_, sessions, ?_⟩
  · intro request listed method
    by_contra going
    obtain ⟨index, found⟩ := List.getElem?_of_mem listed
    have tracked : index ∈ target.activeHttpRequests :=
      mem_activeHttpRequests.mpr ⟨request, found, by simp [McpRequest.isTracked, method, going]⟩
    rw [requests] at tracked
    cases tracked
  · intro ended listed
    by_contra running
    obtain ⟨index, found⟩ := List.getElem?_of_mem listed
    have active : index ∈ target.activeOperations :=
      mem_activeOperations.mpr (by rw [found]; simpa using running)
    rw [operations] at active
    cases active
  · intro label next stepped
    have shut := drained.shut (by rw [closed]; exact nofun)
    obtain ⟨stays, requested, started⟩ := step_closed closed shut gate stepped
    have left := ((drained.step stepped).settled (by rw [stays]; rfl)).2
    exact ⟨stays, requested, started, left⟩

/-- A close waits for the response to an initialization and for the operation it has begun. -/
theorem close_drains_operation : ∃ target, mcpEndpoint.Run (fun _ _ => True) new
      [.request .post none, .parsed 0 true, .connected 0 (some true), .startOperation, .close,
        .consumed 0, .finished 0, .proceed, .startOperation, .finishOperation 0, .proceed,
        .proceed] target ∧
    (∀ request ∈ target.requests, request.method ≠ .get → request.task = .done) ∧
    (∀ ended ∈ target.operations, ended = true) ∧ target.sessions = [] ∧
    ∀ label next, mcpEndpoint.step target label = some next →
      next.closing = some .closed ∧ next.requests.length = target.requests.length ∧
      next.operations.length = target.operations.length ∧ next.sessions = [] := by
  obtain ⟨target, run, closed⟩ : ∃ target, mcpEndpoint.Run (fun _ _ => True) new
      [.request .post none, .parsed 0 true, .connected 0 (some true), .startOperation, .close,
        .consumed 0, .finished 0, .proceed, .startOperation, .finishOperation 0, .proceed,
        .proceed] target ∧
      target.closing = some .closed := Machine.evaluate_view (by decide)
  exact ⟨target, run, close_drains run closed⟩

/-- **What cuts a session off.** In every run, a step that takes a session with a request in
progress from the map is the initialization timer of the session, the close of its transport, or
the end of the endpoint, and then the request is a `GET`. -/
theorem session_cut_off {labels : List McpLabel} {target next : McpEndpoint} {label : McpLabel}
    (run : mcpEndpoint.Run (fun _ _ => True) new labels target)
    (stepped : mcpEndpoint.step target label = some next) {session : Nat}
    (inside : session ∈ target.sessions) (left : session ∉ next.sessions) {request : McpRequest}
    (listed : request ∈ target.requests) (active : request.isActive session = true) :
    label = .initializationTimer session ∨ label = .transportClosed session ∨
      label = .proceed ∧ request.method = .get := by
  have counted := counted run
  have drained := drained run
  have kept : ∀ {conclusion : Prop}, session ∈ next.sessions → conclusion :=
    fun inside => absurd inside left
  cases label with
  | request method named =>
      obtain rfl := Option.some.inj stepped
      refine kept ?_
      unfold handleRequest
      split
      · exact inside
      · split <;> exact inside
  | parsed index initializes =>
      obtain ⟨_, _, rfl⟩ := Option.map_eq_some_iff.mp stepped
      exact kept inside
  | connected index body =>
      obtain ⟨made, _, rfl⟩ := Option.map_eq_some_iff.mp stepped
      cases body with
      | none => exact kept inside
      | some body =>
          have sessions : (target.connected index made body).sessions =
              target.sessions ++ [target.records.length] := (consumes_frame _ _ _).2.2.2.2.2
          exact kept (sessions ▸ List.mem_append_left _ inside)
  | answered index answer =>
      obtain ⟨asked, _, rfl⟩ := Option.map_eq_some_iff.mp stepped
      exact kept (by rw [answered_sessions]; exact inside)
  | consumed index =>
      obtain ⟨asked, _, rfl⟩ := Option.map_eq_some_iff.mp stepped
      obtain ⟨_, _, _, _, _, sessions⟩ := @finishSession_frame target index asked
      exact kept (sessions ▸ inside)
  | finished index =>
      obtain ⟨_, _, rfl⟩ := Option.map_eq_some_iff.mp stepped
      exact kept inside
  | initializationTimer other =>
      simp only [mcpEndpoint] at stepped
      split at stepped
      · obtain rfl := Option.some.inj stepped
        by_cases same : session = other
        · exact .inl (same ▸ rfl)
        · exact kept ((List.mem_erase_of_ne same).mpr inside)
      · cases stepped
  | idleTimer timer =>
      simp only [mcpEndpoint] at stepped
      split at stepped
      · obtain rfl := Option.some.inj stepped
        refine kept ?_
        unfold idleTimeout
        dsimp only
        split
        · exact inside
        · rename_i last
          by_cases same : session = timer.2
          · obtain ⟨record, found⟩ : ∃ record, target.records[session]? = some record :=
              ⟨_, List.getElem?_eq_getElem (counted.known session inside)⟩
            have positive : 0 < record.activeRequests := by
              rw [(counted.tells session record found).count]
              exact List.countP_pos_iff.mpr ⟨request, listed, active⟩
            rw [same] at found
            exact absurd (.inr (by rw [found]; exact positive)) last
          · exact (List.mem_erase_of_ne same).mpr inside
      · cases stepped
  | transportClosed other =>
      obtain rfl := Option.some.inj stepped
      by_cases same : session = other
      · exact .inr (.inl (same ▸ rfl))
      · refine kept ?_
        unfold transportClosed
        split
        · exact (List.mem_erase_of_ne same).mpr inside
        · exact inside
  | startOperation =>
      simp only [mcpEndpoint] at stepped
      split at stepped <;> (obtain rfl := Option.some.inj stepped; exact kept inside)
  | finishOperation index =>
      simp only [mcpEndpoint] at stepped
      split at stepped
      · obtain rfl := Option.some.inj stepped
        exact kept inside
      · cases stepped
  | close =>
      obtain rfl := Option.some.inj stepped
      refine kept ?_
      unfold close
      split <;> exact inside
  | proceed =>
      refine .inr (.inr ⟨rfl, ?_⟩)
      by_contra method
      obtain ⟨index, found⟩ := List.getElem?_of_mem listed
      have going : request.task ≠ .done := by
        intro done
        simp [McpRequest.isActive, done] at active
      have tracked : index ∈ target.activeHttpRequests :=
        mem_activeHttpRequests.mpr ⟨request, found, by simp [McpRequest.isTracked, method, going]⟩
      simp only [mcpEndpoint, proceed] at stepped
      split at stepped
      · split at stepped
        · obtain rfl := Option.some.inj stepped
          exact left inside
        · cases stepped
      · rename_i waiting stage
        rw [(drained.quiet (by rw [stage]; rfl)).2] at tracked
        cases tracked
      · rename_i stage
        rw [(drained.quiet (by rw [stage]; rfl)).2] at tracked
        cases tracked
      · cases stepped

/-- The client has not told that it is initialized, and reads a response while the timer fires. -/
theorem session_cut_off_initialization : ∃ target next, mcpEndpoint.Run (fun _ _ => True) new
      [.request .post none, .parsed 0 true, .connected 0 (some true)] target ∧
    mcpEndpoint.step target (.initializationTimer 0) = some next ∧
    (McpLabel.initializationTimer 0 = .initializationTimer 0 ∨
      McpLabel.initializationTimer 0 = .transportClosed 0 ∨
      McpLabel.initializationTimer 0 = .proceed ∧ HttpMethod.post = .get) := by
  obtain ⟨target, run, seen⟩ : ∃ target, mcpEndpoint.Run (fun _ _ => True) new
      [.request .post none, .parsed 0 true, .connected 0 (some true)] target ∧
      (target.records, target.sessions, target.requests) =
        ([⟨1, true, none⟩], [0], [⟨.post, some 0, .streaming⟩]) :=
    Machine.evaluate_view (by decide)
  obtain ⟨records, sessions, requests⟩ : target.records = [⟨1, true, none⟩] ∧
      target.sessions = [0] ∧ target.requests = [⟨.post, some 0, .streaming⟩] := by
    simpa using seen
  have stepped : mcpEndpoint.step target (.initializationTimer 0) =
      some (target.initializationTimeout 0) := by
    simp [mcpEndpoint, records]
  have inside : 0 ∈ target.sessions := by simp [sessions]
  have left : 0 ∉ (target.initializationTimeout 0).sessions := by
    simp [initializationTimeout, sessions]
  have listed : ⟨.post, some 0, .streaming⟩ ∈ target.requests := by simp [requests]
  exact ⟨target, _, run, stepped, session_cut_off run stepped inside left listed rfl⟩

end McpEndpoint

end Kb1Daemon
