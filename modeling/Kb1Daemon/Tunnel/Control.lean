import Kb1Daemon.Foundation.Machine
import Kb1Daemon.Foundation.Slots
import Kb1Daemon.Tunnel.Mux

/-! # The control connection

The tunnel client holds a connection to its relay, probes it, and connects again when it closes.
While the client runs, a connection or a reconnection is under way, and there is at most one more
of them than there were closes of sockets the client had already left (`control_load`). A
connection is given up exactly when four probes in a row are not answered (`heartbeat_exact`), and
two frames carry the same mutation epoch exactly when no change of a vault and no restart lies
between them (`epoch_exact`).
-/

namespace Kb1Daemon

def controlReplaced : Nat := 4000
def controlHeartbeatIntervalMs : Nat := 15000
def controlHeartbeatMissesBeforeReconnect : Nat := 4
def controlDurableLivenessIntervalMs : Nat := 30000

/-- A frame that the client hands to a control socket; only an event about a change of a vault
carries an epoch. -/
inductive ControlFrame where
  | hello (vaultMutationEpoch : Nat)
  | ping (durable : Bool)
  | event (topic : JsString) (vaultMutationEpoch : Option Nat)
  deriving DecidableEq, Repr

def ControlFrame.epoch : ControlFrame → Option Nat
  | .hello epoch => some epoch
  | .ping _ => none
  | .event _ epoch => epoch

/-- What a client has done: a change of a vault, a start after a stop, a frame on a socket, or the
end of a socket whose probes are not answered. -/
inductive ControlAct where
  | mutated
  | restarted
  | sent (socket : Nat) (frame : ControlFrame)
  | terminated (socket : Nat)
  deriving DecidableEq, Repr

/-- The epoch that an act tells the relay. -/
def ControlAct.epoch : ControlAct → Option Nat
  | .sent _ frame => frame.epoch
  | _ => none

/-- After the act a cache of the relay is stale. -/
def ControlAct.isChange : ControlAct → Bool
  | .mutated | .restarted => true
  | _ => false

def ControlAct.isTermination : ControlAct → Bool
  | .terminated _ => true
  | _ => false

/-- The client, its sockets by their numbers, and the timers that are pending. -/
structure ControlClient where
  stopped : Bool
  hasStarted : Bool
  reconnectAttempt : Nat
  vaultMutationEpoch : Nat
  sockets : List ReadyState
  control : Option Nat
  /-- The pending timers that connect again, and the number of the next one. -/
  reconnects : List Nat
  nextTimer : Nat
  reconnectTimer : Option Nat
  /-- The socket of the interval, and the time since its last durable probe. -/
  controlHeartbeatInterval : Option (Nat × Nat)
  controlHeartbeatDeadline : Option Nat
  controlHeartbeatMisses : Nat
  history : List ControlAct
  deriving DecidableEq, Repr

namespace ControlClient

def new : ControlClient where
  stopped := true
  hasStarted := false
  reconnectAttempt := 0
  vaultMutationEpoch := 0
  sockets := []
  control := none
  reconnects := []
  nextTimer := 0
  reconnectTimer := none
  controlHeartbeatInterval := none
  controlHeartbeatDeadline := none
  controlHeartbeatMisses := 0
  history := []

/-- The state of a socket that is closed or terminated. -/
def ending : ReadyState → ReadyState
  | .closed => .closed
  | _ => .closing

def connectControl (client : ControlClient) : ControlClient :=
  if client.stopped then client
  else { client with
    sockets := client.sockets ++ [.connecting], control := some client.sockets.length }

def start (client : ControlClient) : ControlClient :=
  if !client.stopped then client
  else
    connectControl { client with
      vaultMutationEpoch := client.vaultMutationEpoch + if client.hasStarted then 1 else 0
      history := client.history ++ if client.hasStarted then [.restarted] else []
      hasStarted := true
      stopped := false
      reconnectAttempt := 0 }

def clearControlHeartbeat (client : ControlClient) : ControlClient :=
  { client with
    controlHeartbeatInterval := none
    controlHeartbeatDeadline := none
    controlHeartbeatMisses := 0 }

def stop (client : ControlClient) : ControlClient :=
  { client.clearControlHeartbeat with
    stopped := true
    reconnects := client.reconnects.filter fun timer => client.reconnectTimer ≠ some timer
    reconnectTimer := none
    sockets := client.control.elim client.sockets fun socket => client.sockets.modify socket ending
    control := none }

/-- A socket opens. -/
def opened (client : ControlClient) (socket : Nat) : ControlClient :=
  { client.clearControlHeartbeat with
    sockets := client.sockets.set socket .opened
    controlHeartbeatInterval := some (socket, 0)
    history := client.history ++ [.sent socket (.hello client.vaultMutationEpoch)] }

/-- A socket is closed, and is no longer the connection. -/
def leave (client : ControlClient) (socket : Nat) : ControlClient :=
  let left := { client with sockets := client.sockets.set socket .closed }
  if client.control = some socket then { left.clearControlHeartbeat with control := none } else left

/-- A socket has closed. -/
def closed (client : ControlClient) (socket code : Nat) : ControlClient :=
  let left := client.leave socket
  if client.stopped then left
  else if code = controlReplaced then { left with stopped := true }
  else { left with
    reconnectAttempt := client.reconnectAttempt + 1
    reconnects := client.reconnects ++ [client.nextTimer]
    reconnectTimer := some client.nextTimer
    nextTimer := client.nextTimer + 1 }

/-- A timer is no longer pending. -/
def elapse (client : ControlClient) (timer : Nat) : ControlClient :=
  { client with reconnects := client.reconnects.erase timer, reconnectTimer := none }

/-- A timer connects again. -/
def reconnect (client : ControlClient) (timer : Nat) : ControlClient :=
  (client.elapse timer).connectControl

/-- The interval of a socket fires. -/
def probe (client : ControlClient) (socket elapsed : Nat) : ControlClient :=
  if client.control ≠ some socket ∨ client.stopped ∨ client.sockets[socket]? ≠ some .opened then
    client
  else
    let elapsed := elapsed + controlHeartbeatIntervalMs
    let durable := decide (controlDurableLivenessIntervalMs ≤ elapsed)
    { client with
      controlHeartbeatInterval := some (socket, if durable then 0 else elapsed)
      controlHeartbeatDeadline := some socket
      history := client.history ++ .sent socket (.ping false) ::
        if durable then [.sent socket (.ping true)] else [] }

/-- The deadline of a probe passes. -/
def expire (client : ControlClient) (socket : Nat) : ControlClient :=
  let passed := { client with controlHeartbeatDeadline := none }
  if client.control ≠ some socket ∨ client.stopped then passed
  else
    let missed := { passed with controlHeartbeatMisses := client.controlHeartbeatMisses + 1 }
    if missed.controlHeartbeatMisses < controlHeartbeatMissesBeforeReconnect then missed
    else { missed with
      sockets := client.sockets.modify socket ending
      history := client.history ++ [.terminated socket] }

def isVaultMutation (topic : JsString) : Bool :=
  topic = units "vault.tree.changed" || topic = units "vault.content.changed"

def sendRelayEvent (client : ControlClient) (topic : JsString) : ControlClient :=
  let changed :=
    if isVaultMutation topic then
      { client with
        vaultMutationEpoch := client.vaultMutationEpoch + 1
        history := client.history ++ [.mutated] }
    else client
  match client.control.filter fun socket => client.sockets[socket]? = some .opened with
  | none => changed
  | some socket =>
      { changed with
        history := changed.history ++ [.sent socket (.event topic
          (if isVaultMutation topic then some changed.vaultMutationEpoch else none))] }

end ControlClient

/-- An event of the client. A socket is named by its number. -/
inductive ControlLabel where
  | start
  | stop
  | opened (socket : Nat)
  | ready (socket : Nat)
  | pong (socket : Nat)
  | closed (socket code : Nat)
  | reconnect (timer : Nat)
  | probe
  | expire
  | relayEvent (topic : JsString)
  deriving DecidableEq, Repr

/-- The machine of the control connection. A socket opens once and closes once, and what arrives
before its close is handed over also while it is closing. -/
def tunnelControl : Machine ControlClient ControlLabel where
  step client label :=
    match label with
    | .start => some client.start
    | .stop => some client.stop
    | .opened socket =>
        if client.sockets[socket]? = some .connecting then some (client.opened socket) else none
    | .ready socket =>
        if client.sockets[socket]? ∈ [some ReadyState.opened, some .closing] then
          some { client with reconnectAttempt := 0 }
        else none
    | .pong socket =>
        if client.sockets[socket]? ∈ [some ReadyState.opened, some .closing] then
          some { client with controlHeartbeatDeadline := none, controlHeartbeatMisses := 0 }
        else none
    | .closed socket code =>
        if client.sockets[socket]? ∈ [none, some ReadyState.closed] then none
        else some (client.closed socket code)
    | .reconnect timer => if timer ∈ client.reconnects then some (client.reconnect timer) else none
    | .probe => client.controlHeartbeatInterval.map fun beat => client.probe beat.1 beat.2
    | .expire => client.controlHeartbeatDeadline.map client.expire
    | .relayEvent topic => some (client.sendRelayEvent topic)

/-- While the client runs, a socket that is not its connection closes. -/
def ControlClient.LateClose (client : ControlClient) : ControlLabel → Prop
  | .closed socket _ => client.stopped = false ∧ client.control ≠ some socket
  | _ => False

instance (client : ControlClient) (label : ControlLabel) : Decidable (client.LateClose label) := by
  cases label <;> unfold ControlClient.LateClose <;> infer_instance

def ReadyState.isUp : ReadyState → Bool
  | .connecting | .opened => true
  | .closing | .closed => false

namespace ControlClient

variable {client next : ControlClient}

/-- The connection is given up and has not closed yet. -/
def isLeaving (client : ControlClient) : Bool :=
  client.control.any fun socket => client.sockets[socket]? = some .closing

/-- The connections and reconnections under way. -/
def load (client : ControlClient) : Nat :=
  client.sockets.countP ReadyState.isUp + client.isLeaving.toNat + client.reconnects.length

/-- One connection may be under way while the client runs. -/
def allowance (client : ControlClient) : Nat := if client.stopped then 0 else 1

/-- The recorded timer is pending, and no number is given twice. -/
structure Timed (client : ControlClient) : Prop where
  fresh : ∀ timer ∈ client.reconnects, timer < client.nextTimer
  distinct : client.reconnects.Nodup
  pending : ∀ timer, client.reconnectTimer = some timer → timer ∈ client.reconnects

/-- The connection is a socket that has not closed, and a client that runs has a connection or a
recorded timer. -/
structure Sound (client : ControlClient) : Prop extends client.Timed where
  live : ∀ socket, client.control = some socket →
    ∃ state, client.sockets[socket]? = some state ∧ state ≠ .closed
  driven : client.stopped = false → client.control.isSome ∨ client.reconnectTimer.isSome

/-- A step to a sound state, which adds no more to the load than its allowance and what is late. -/
structure Moves (client next : ControlClient) (late : Nat) : Prop where
  sound : next.Sound
  load : next.load + client.allowance ≤ client.load + next.allowance + late

theorem sound_new : new.Sound where
  live := by simp [new]
  fresh := by simp [new]
  distinct := List.nodup_nil
  pending := by simp [new]
  driven := by simp [new]

/-- A socket that changes its state counts as it is now. -/
theorem countP_set {sockets : List ReadyState} {socket : Nat} {old : ReadyState}
    (state : ReadyState) (found : sockets[socket]? = some old) :
    (sockets.set socket state).countP ReadyState.isUp + old.isUp.toNat =
      sockets.countP ReadyState.isUp + state.isUp.toNat :=
  List.countP_set_add state found

/-- A connection that is given up is up or leaving. -/
theorem load_control (sound : client.Sound) {socket : Nat}
    (connected : client.control = some socket) {old : ReadyState}
    (found : client.sockets[socket]? = some old) :
    old.isUp.toNat + client.isLeaving.toNat = 1 := by
  obtain ⟨state, same, alive⟩ := sound.live socket connected
  rw [found] at same
  cases same
  cases old <;> simp_all [isLeaving, ReadyState.isUp]

/-- A socket that is ending is not up. -/
theorem isUp_ending (state : ReadyState) : (ending state).isUp = false := by
  cases state <;> rfl

/-- A connect of a running client leaves it sound. -/
theorem Timed.connects (timed : client.Timed) (running : client.stopped = false) :
    client.connectControl.Sound := by
  unfold connectControl
  rw [running, if_neg Bool.false_ne_true]
  exact
    { timed with
      live := by
        intro socket connected
        cases connected
        exact ⟨.connecting, List.getElem?_concat_length, by simp⟩
      driven := fun _ => .inl rfl }

/-- A connect adds at most one socket or timer. -/
theorem load_connectControl (running : client.stopped = false) :
    client.connectControl.load ≤ client.load + 1 := by
  have sockets : client.connectControl.sockets = client.sockets ++ [.connecting] := by
    simp [connectControl, running]
  have leaving : client.connectControl.isLeaving = false := by
    simp [connectControl, running, isLeaving]
  have timers : client.connectControl.reconnects = client.reconnects := by
    simp [connectControl, running]
  rw [load, load, sockets, leaving, timers, List.countP_append]
  simp only [Bool.toNat_false, List.countP_singleton, ReadyState.isUp, if_true]
  omega

theorem Sound.start (sound : client.Sound) : client.Moves client.start 0 := by
  unfold ControlClient.start
  split
  · exact ⟨sound, by omega⟩
  · rename_i stopped
    have stopped : client.stopped = true := by simpa using stopped
    refine ⟨Timed.connects ⟨sound.fresh, sound.distinct, sound.pending⟩ rfl, ?_⟩
    refine (Nat.add_le_add_right (load_connectControl rfl) _).trans ?_
    simp [allowance, connectControl, stopped, load, isLeaving]

theorem Sound.stop (sound : client.Sound) : client.Moves client.stop 0 := by
  have timers : (client.reconnects.filter fun timer => client.reconnectTimer ≠ some timer).length +
      client.reconnectTimer.isSome.toNat ≤ client.reconnects.length := by
    cases recorded : client.reconnectTimer with
    | none => exact List.length_filter_le _ _
    | some timer =>
        have split := List.length_eq_length_filter_add (l := client.reconnects)
          fun other => decide (some timer ≠ some other)
        have present : timer ∈ client.reconnects.filter
            fun other => !decide (some timer ≠ some other) := by
          simpa using sound.pending timer recorded
        have counted := List.length_pos_of_mem present
        simp only [Option.isSome_some, Bool.toNat_true]
        omega
  have sockets : client.stop.sockets.countP ReadyState.isUp + client.control.isSome.toNat ≤
      client.sockets.countP ReadyState.isUp + client.isLeaving.toNat := by
    unfold ControlClient.stop
    cases connected : client.control with
    | none => simp
    | some socket =>
        obtain ⟨old, found, _⟩ := sound.live socket connected
        have counted := countP_set (ending old) found
        have given := load_control sound connected found
        rw [isUp_ending] at counted
        simp only [Option.elim_some, List.modify_eq_set_of_found ending found]
        simp at counted ⊢
        omega
  refine ⟨⟨⟨?_, ?_, ?_⟩, ?_, ?_⟩, ?_⟩
  · intro timer listed
    exact sound.fresh timer (List.mem_filter.mp listed).1
  · exact sound.distinct.filter _
  · intro timer recorded
    cases recorded
  · intro socket connected
    cases connected
  · intro running
    cases running
  · have leaving : client.stop.isLeaving = false := rfl
    have stopped : client.stop.allowance = 0 := rfl
    have count : client.stop.reconnects.length =
        (client.reconnects.filter fun timer => client.reconnectTimer ≠ some timer).length := rfl
    have driven : client.allowance ≤
        client.control.isSome.toNat + client.reconnectTimer.isSome.toNat := by
      unfold allowance
      split
      · exact Nat.zero_le _
      · rename_i running
        rcases sound.driven (by simpa using running) with connected | recorded
        · rw [connected]
          exact Nat.le_add_right _ _
        · rw [recorded]
          exact Nat.le_add_left _ _
    rw [load, load, leaving, stopped, count]
    simp only [Bool.toNat_false]
    omega

theorem Sound.opened (sound : client.Sound) {socket : Nat}
    (connecting : client.sockets[socket]? = some .connecting) :
    client.Moves (client.opened socket) 0 := by
  have inside := (List.getElem?_eq_some_iff.mp connecting).1
  refine ⟨⟨⟨sound.fresh, sound.distinct, sound.pending⟩, ?_, sound.driven⟩, ?_⟩
  · intro other connected
    by_cases same : other = socket
    · exact ⟨.opened, by rw [same]; exact List.getElem?_set_self inside, by simp⟩
    · obtain ⟨state, found, alive⟩ := sound.live other connected
      exact ⟨state, (List.getElem?_set_ne (Ne.symm same)).trans found, alive⟩
  · have leaving : (client.opened socket).isLeaving = client.isLeaving := by
      unfold isLeaving
      change client.control.any _ = _
      cases client.control with
      | none => rfl
      | some other =>
          by_cases same : socket = other
          · subst same
            have idle := (List.getElem?_eq_some_iff.mp connecting).2
            simp [ControlClient.opened, inside, idle]
          · simp [ControlClient.opened, List.getElem?_set_ne same]
    have counted := countP_set .opened connecting
    change _ + 1 = _ + 1 at counted
    rw [load, load, leaving]
    change (client.sockets.set socket .opened).countP _ + _ + client.reconnects.length +
      client.allowance ≤ _ + client.allowance + 0
    omega

/-- A socket that closes is counted no longer; the connection counts for one. -/
theorem Sound.leave (sound : client.Sound) {socket : Nat} {old : ReadyState}
    (found : client.sockets[socket]? = some old) :
    (client.leave socket).Timed ∧
      (∀ other, (client.leave socket).control = some other →
        ∃ state, (client.leave socket).sockets[other]? = some state ∧ state ≠ .closed) ∧
      (client.leave socket).load + (if client.control = some socket then 1 else 0) ≤
        client.load := by
  have counted := countP_set .closed found
  change _ = _ + 0 at counted
  unfold ControlClient.leave
  split
  · rename_i connected
    refine ⟨⟨sound.fresh, sound.distinct, sound.pending⟩, ?_, ?_⟩
    · intro other gone
      cases gone
    · have given := load_control sound connected found
      change (client.sockets.set socket .closed).countP _ + 0 + client.reconnects.length + 1 ≤ _
      unfold load
      omega
  · rename_i other
    refine ⟨⟨sound.fresh, sound.distinct, sound.pending⟩, ?_, ?_⟩
    · intro current connected
      have different : socket ≠ current := by
        rintro rfl
        exact other connected
      obtain ⟨state, present, alive⟩ := sound.live current connected
      exact ⟨state, (List.getElem?_set_ne different).trans present, alive⟩
    · have leaving :
          isLeaving { client with sockets := client.sockets.set socket .closed } =
            client.isLeaving := by
        unfold isLeaving
        dsimp only
        cases connected : client.control with
        | none => rfl
        | some current =>
            have different : socket ≠ current := by
              rintro rfl
              exact other connected
            simp [List.getElem?_set_ne different]
      rw [load, load, leaving]
      dsimp only
      omega

theorem Sound.closed (sound : client.Sound) {socket : Nat} {old : ReadyState} (code : Nat)
    (found : client.sockets[socket]? = some old) :
    client.Moves (client.closed socket code)
      (if client.stopped = false ∧ client.control ≠ some socket then 1 else 0) := by
  obtain ⟨timed, live, lighter⟩ := sound.leave found
  have stops : (client.leave socket).stopped = client.stopped := by
    unfold ControlClient.leave
    split <;> rfl
  have timers : (client.leave socket).reconnects = client.reconnects := by
    unfold ControlClient.leave
    split <;> rfl
  unfold ControlClient.closed
  dsimp only
  split
  · rename_i stopped
    refine ⟨⟨timed, live, ?_⟩, ?_⟩
    · rw [stops, stopped]
      exact nofun
    · simp only [allowance, stops, stopped]
      omega
  · rename_i running
    rw [Bool.not_eq_true] at running
    have late : (if client.control = some socket then 1 else 0) +
        (if client.stopped = false ∧ client.control ≠ some socket then 1 else 0) = 1 := by
      by_cases connected : client.control = some socket <;> simp [connected, running]
    have allowed : client.allowance = 1 := by
      rw [allowance, running]
      rfl
    split
    · refine ⟨⟨⟨timed.fresh, timed.distinct, timed.pending⟩, live, nofun⟩, ?_⟩
      change (client.leave socket).load + client.allowance ≤ client.load + 0 + _
      rw [allowed]
      omega
    · refine ⟨⟨⟨?_, ?_, ?_⟩, live, fun _ => .inr rfl⟩, ?_⟩
      · intro timer listed
        rcases List.mem_append.mp listed with listed | new
        · exact Nat.lt_succ_of_lt (sound.fresh timer listed)
        · rw [List.mem_singleton.mp new]
          exact Nat.lt_succ_self _
      · refine List.nodup_append.mpr ⟨sound.distinct, List.nodup_singleton _, ?_⟩
        intro timer listed other new same
        rw [same, List.mem_singleton.mp new] at listed
        exact Nat.lt_irrefl _ (sound.fresh _ listed)
      · intro timer recorded
        cases recorded
        exact List.mem_append_right _ (List.mem_singleton_self _)
      · change (client.leave socket).sockets.countP _ + (client.leave socket).isLeaving.toNat +
          (client.reconnects ++ [client.nextTimer]).length + client.allowance ≤
            client.load + (client.leave socket).allowance + _
        rw [load, timers] at lighter
        have allows : (client.leave socket).allowance = 1 := by
          rw [allowance, stops, running]
          rfl
        rw [List.length_append, List.length_singleton, allows, allowed]
        omega

theorem Sound.reconnect (sound : client.Sound) {timer : Nat} (pending : timer ∈ client.reconnects) :
    client.Moves (client.reconnect timer) 0 := by
  have timed : (client.elapse timer).Timed :=
    ⟨fun other listed => sound.fresh other (List.mem_of_mem_erase listed),
      sound.distinct.erase timer, nofun⟩
  have fewer : (client.elapse timer).load + 1 = client.load := by
    have counted := List.length_erase_of_mem pending
    have present := List.length_pos_of_mem pending
    change client.sockets.countP _ + client.isLeaving.toNat +
      (client.reconnects.erase timer).length + 1 = _
    rw [load, counted]
    omega
  unfold ControlClient.reconnect
  by_cases running : (client.elapse timer).stopped = false
  · refine ⟨timed.connects running, ?_⟩
    have more := load_connectControl running
    have same : (client.elapse timer).connectControl.allowance = client.allowance := by
      unfold connectControl
      split <;> rfl
    rw [same]
    omega
  · rw [Bool.not_eq_false] at running
    have idle : (client.elapse timer).connectControl = client.elapse timer := by
      rw [connectControl, running, if_pos rfl]
    rw [idle]
    refine ⟨⟨timed, sound.live, ?_⟩, ?_⟩
    · intro active
      rw [running] at active
      cases active
    · change _ + client.allowance ≤ _ + client.allowance + 0
      omega

theorem Sound.expire (sound : client.Sound) (socket : Nat) :
    client.Moves (client.expire socket) 0 := by
  have kept : ∀ misses, client.Moves { client with
      controlHeartbeatDeadline := none, controlHeartbeatMisses := misses } 0 := fun misses =>
    ⟨⟨⟨sound.fresh, sound.distinct, sound.pending⟩, sound.live, sound.driven⟩, Nat.le_refl _⟩
  unfold ControlClient.expire
  dsimp only
  split
  · exact kept _
  · rename_i current
    split
    · exact kept _
    · obtain ⟨connected, _⟩ := not_or.mp current
      rw [not_not] at connected
      obtain ⟨old, found, alive⟩ := sound.live socket connected
      have inside := (List.getElem?_eq_some_iff.mp found).1
      have given := load_control sound connected found
      have counted := countP_set (ending old) found
      have closing : ending old = .closing := by
        cases old <;> first | rfl | exact absurd rfl alive
      rw [List.modify_eq_set_of_found ending found]
      refine ⟨⟨⟨sound.fresh, sound.distinct, sound.pending⟩, ?_, sound.driven⟩, ?_⟩
      · intro other same
        rw [show client.control = some other from same] at connected
        cases connected
        exact ⟨_, List.getElem?_set_self inside, by simp [closing]⟩
      · change (client.sockets.set socket (ending old)).countP _ + _ + client.reconnects.length +
          client.allowance ≤ _ + client.allowance + 0
        simp only [isLeaving, connected, Option.any_some, List.getElem?_set_self inside, closing,
          decide_true, Bool.toNat_true]
        rw [isUp_ending] at counted
        rw [load, ← closing]
        simp only [Bool.toNat_false] at counted
        omega

/-- The cost of a close that comes late. -/
def lateCost (client : ControlClient) (label : ControlLabel) : Nat :=
  if client.LateClose label then 1 else 0

theorem Sound.step {label : ControlLabel} (sound : client.Sound)
    (stepped : tunnelControl.step client label = some next) :
    client.Moves next (client.lateCost label) := by
  have keeps : ∀ {other : ControlClient}, client.Moves other 0 → client.Moves other
      (client.lateCost label) := fun moves => ⟨moves.sound, moves.load.trans (by omega)⟩
  have still : ∀ attempt interval deadline misses history, client.Moves { client with
      reconnectAttempt := attempt, controlHeartbeatInterval := interval
      controlHeartbeatDeadline := deadline, controlHeartbeatMisses := misses
      history := history } 0 := fun _ _ _ _ _ =>
    ⟨⟨⟨sound.fresh, sound.distinct, sound.pending⟩, sound.live, sound.driven⟩, Nat.le_refl _⟩
  cases label with
  | start =>
      obtain rfl := Option.some.inj stepped
      exact keeps sound.start
  | stop =>
      obtain rfl := Option.some.inj stepped
      exact keeps sound.stop
  | opened socket =>
      simp only [tunnelControl] at stepped
      split at stepped
      · rename_i connecting
        obtain rfl := Option.some.inj stepped
        exact keeps (sound.opened connecting)
      · cases stepped
  | ready socket =>
      simp only [tunnelControl] at stepped
      split at stepped
      · obtain rfl := Option.some.inj stepped
        exact keeps (still _ _ _ _ _)
      · cases stepped
  | pong socket =>
      simp only [tunnelControl] at stepped
      split at stepped
      · obtain rfl := Option.some.inj stepped
        exact keeps (still _ _ _ _ _)
      · cases stepped
  | closed socket code =>
      simp only [tunnelControl] at stepped
      split at stepped
      · cases stepped
      · rename_i alive
        obtain rfl := Option.some.inj stepped
        obtain ⟨old, found⟩ : ∃ old, client.sockets[socket]? = some old :=
          Option.ne_none_iff_exists'.mp fun missing => alive (by simp [missing])
        exact sound.closed code found
  | reconnect timer =>
      simp only [tunnelControl] at stepped
      split at stepped
      · rename_i pending
        obtain rfl := Option.some.inj stepped
        exact keeps (sound.reconnect pending)
      · cases stepped
  | probe =>
      obtain ⟨beat, _, rfl⟩ := Option.map_eq_some_iff.mp stepped
      unfold ControlClient.probe
      split
      · exact keeps (still _ _ _ _ _)
      · exact keeps (still _ _ _ _ _)
  | expire =>
      obtain ⟨socket, _, rfl⟩ := Option.map_eq_some_iff.mp stepped
      exact keeps (sound.expire socket)
  | relayEvent topic =>
      obtain rfl := Option.some.inj stepped
      have same : ∀ epoch history, client.Moves { client with
          vaultMutationEpoch := epoch, history := history } 0 := fun _ _ =>
        ⟨⟨⟨sound.fresh, sound.distinct, sound.pending⟩, sound.live, sound.driven⟩, Nat.le_refl _⟩
      unfold ControlClient.sendRelayEvent
      dsimp only
      split <;> split <;> exact keeps (same _ _)

/-- A running client has a socket or a timer. -/
theorem Sound.loaded (sound : client.Sound) (running : client.stopped = false) :
    1 ≤ client.load := by
  rcases sound.driven running with connected | recorded
  · obtain ⟨socket, connected⟩ := Option.isSome_iff_exists.mp connected
    obtain ⟨state, found, _⟩ := sound.live socket connected
    have given := load_control sound connected found
    have counted := countP_set .closed found
    change _ = _ + 0 at counted
    unfold load
    omega
  · obtain ⟨timer, recorded⟩ := Option.isSome_iff_exists.mp recorded
    have present := List.length_pos_of_mem (sound.pending timer recorded)
    unfold load
    omega

/-- **One connection at a time.** In every run, as long as the client runs, a connection or a
reconnection is under way; and those under way are at most one, or none while it is stopped, and
one for each close that came late. -/
theorem control_load {labels : List ControlLabel} {target : ControlClient}
    (run : tunnelControl.Run (fun _ _ => True) new labels target) :
    (target.stopped = false → 1 ≤ target.load) ∧
      target.load ≤ target.allowance + tunnelControl.totalCost lateCost new labels := by
  have keep : ∀ client label next, True → tunnelControl.step client label = some next →
      client.Sound → next.Sound := fun _ _ _ _ stepped sound => (sound.step stepped).sound
  have sound := run.invariant keep sound_new
  refine ⟨sound.loaded, ?_⟩
  have bound := run.le_totalCost keep (fun _ _ _ _ stepped sound => (sound.step stepped).load)
    sound_new
  have idle : new.load = 0 ∧ new.allowance = 0 := ⟨rfl, rfl⟩
  omega

/-- A restart before the old connection has closed leaves two open connections. -/
theorem control_load_restart : ∃ target, tunnelControl.Run (fun _ _ => True) new
    [.start, .opened 0, .stop, .start, .opened 1, .closed 0 1001, .reconnect 0, .opened 2]
      target ∧
    target.sockets = [.closed, .opened, .opened] ∧ target.allowance = 1 ∧
    (target.stopped = false → 1 ≤ target.load) ∧
    target.load ≤ target.allowance + tunnelControl.totalCost lateCost new
      [.start, .opened 0, .stop, .start, .opened 1, .closed 0 1001, .reconnect 0, .opened 2] := by
  obtain ⟨target, run, seen⟩ : ∃ target, tunnelControl.Run (fun _ _ => True) new
      [.start, .opened 0, .stop, .start, .opened 1, .closed 0 1001, .reconnect 0, .opened 2]
        target ∧
      (target.sockets, target.allowance) = ([.closed, .opened, .opened], 1) :=
    Machine.evaluate_view (by decide)
  obtain ⟨sockets, allowance⟩ := Prod.mk.inj seen
  exact ⟨target, run, sockets, allowance, control_load run⟩

section Heartbeat

/-- The probes missed since the last answer, and the connections given up. -/
def beat (books : Nat × Nat) : ControlLabel → Nat × Nat
  | .expire =>
      (books.1 + 1, books.2 + if books.1 + 1 < controlHeartbeatMissesBeforeReconnect then 0 else 1)
  | .opened _ | .pong _ | .closed _ _ | .stop => (0, books.2)
  | _ => books

/-- The client is sound without late closes; a socket that is up is its connection, and so is the
one it probes. -/
structure Beating (client : ControlClient) : Prop extends client.Sound where
  load : client.load ≤ client.allowance
  up : ∀ socket state, client.sockets[socket]? = some state → state.isUp = true →
    client.control = some socket ∧ client.stopped = false
  interval : ∀ beat, client.controlHeartbeatInterval = some beat →
    client.control = some beat.1 ∧ client.stopped = false
  deadline : ∀ socket, client.controlHeartbeatDeadline = some socket →
    client.control = some socket ∧ client.stopped = false
  calm : client.stopped = true → client.controlHeartbeatMisses = 0

def books (client : ControlClient) : Nat × Nat :=
  (client.controlHeartbeatMisses, client.history.countP ControlAct.isTermination)

theorem beating_new : new.Beating where
  toSound := sound_new
  load := Nat.le_refl _
  up := by simp [new]
  interval := by simp [new]
  deadline := by simp [new]
  calm := fun _ => rfl

/-- A client without a connection, or with a stopped one, probes nothing. -/
theorem Beating.silent (beating : client.Beating)
    (idle : client.control = none ∨ client.stopped = true) :
    client.controlHeartbeatInterval = none ∧ client.controlHeartbeatDeadline = none := by
  constructor
  · cases found : client.controlHeartbeatInterval with
    | none => rfl
    | some beat =>
        obtain ⟨connected, running⟩ := beating.interval beat found
        rcases idle with idle | idle <;> simp_all
  · cases found : client.controlHeartbeatDeadline with
    | none => rfl
    | some socket =>
        obtain ⟨connected, running⟩ := beating.deadline socket found
        rcases idle with idle | idle <;> simp_all

/-- Only the connection can be up. -/
theorem Beating.down (beating : client.Beating)
    (idle : client.control = none ∨ client.stopped = true) {socket : Nat} {state : ReadyState}
    (found : client.sockets[socket]? = some state) : state.isUp = false := by
  by_contra up
  obtain ⟨connected, running⟩ := beating.up socket state found (by simpa using up)
  rcases idle with idle | idle <;> simp_all

/-- A connection that is given up was the last socket that was up. -/
theorem Beating.gives (beating : client.Beating) {socket other : Nat} {state : ReadyState}
    (connected : client.control = some socket)
    (found : (client.sockets.modify socket ending)[other]? = some state) : state.isUp = false := by
  rw [List.getElem?_modify] at found
  obtain ⟨old, present, rfl⟩ := Option.map_eq_some_iff.mp found
  split
  · exact isUp_ending old
  · rename_i different
    by_contra up
    have current := (beating.up other old present (by simpa using up)).1
    rw [connected] at current
    exact different (Option.some.inj current)

/-- A new connection is the only socket that is up. -/
theorem Beating.connects (beating : client.Beating)
    (idle : client.control = none ∨ client.stopped = true)
    (sockets : next.sockets = client.sockets ++ [.connecting])
    (connected : next.control = some client.sockets.length) (running : next.stopped = false)
    (socket : Nat) (state : ReadyState) (found : next.sockets[socket]? = some state)
    (up : state.isUp = true) : next.control = some socket ∧ next.stopped = false := by
  rw [sockets] at found
  rcases Nat.lt_trichotomy socket client.sockets.length with old | new | beyond
  · rw [List.getElem?_append_left old] at found
    rw [beating.down idle found] at up
    cases up
  · rw [new]
    exact ⟨connected, running⟩
  · rw [List.getElem?_eq_none (by simp; omega)] at found
    cases found

theorem Beating.start (beating : client.Beating) (sound : client.start.Sound)
    (load : client.start.load ≤ client.start.allowance) :
    client.start.Beating ∧ client.start.books = client.books := by
  by_cases running : client.stopped = false
  · have same : client.start = client := by simp [ControlClient.start, running]
    rw [same]
    exact ⟨beating, rfl⟩
  · rw [Bool.not_eq_false] at running
    obtain ⟨interval, deadline⟩ := beating.silent (.inr running)
    have sockets : client.start.sockets = client.sockets ++ [.connecting] ∧
        client.start.control = some client.sockets.length ∧ client.start.stopped = false := by
      simp [ControlClient.start, connectControl, running]
    have beats : client.start.controlHeartbeatInterval = none ∧
        client.start.controlHeartbeatDeadline = none := by
      simp [ControlClient.start, connectControl, running, interval, deadline]
    refine ⟨⟨sound, load, ?_, by simp [beats], by simp [beats], ?_⟩, ?_⟩
    · exact beating.connects (.inr running) sockets.1 sockets.2.1 sockets.2.2
    · rw [sockets.2.2]
      exact nofun
    · simp only [books, ControlClient.start, connectControl, running]
      cases client.hasStarted <;> simp [ControlAct.isTermination]

theorem Beating.stop (beating : client.Beating) (sound : client.stop.Sound)
    (load : client.stop.load ≤ client.stop.allowance) :
    client.stop.Beating ∧ client.stop.books = (0, client.books.2) := by
  refine ⟨⟨sound, load, ?_, nofun, nofun, fun _ => rfl⟩, rfl⟩
  intro other state found up
  unfold ControlClient.stop at found
  cases connected : client.control with
  | none =>
      rw [connected] at found
      rw [beating.down (.inl connected) found] at up
      cases up
  | some socket =>
      rw [connected] at found
      rw [beating.gives connected found] at up
      cases up

theorem Beating.opened (beating : client.Beating) {socket : Nat}
    (connecting : client.sockets[socket]? = some .connecting)
    (sound : (client.opened socket).Sound)
    (load : (client.opened socket).load ≤ (client.opened socket).allowance) :
    (client.opened socket).Beating ∧ (client.opened socket).books = (0, client.books.2) := by
  have current := beating.up socket _ connecting rfl
  refine ⟨⟨sound, load, ?_, ?_, nofun, fun _ => rfl⟩, ?_⟩
  · intro other state found up
    by_cases same : socket = other
    · exact same ▸ current
    · rw [ControlClient.opened, List.getElem?_set_ne same] at found
      exact beating.up other state found up
  · intro beat started
    cases started
    exact current
  · simp [books, ControlClient.opened, clearControlHeartbeat, ControlAct.isTermination]

theorem Beating.closed (beating : client.Beating) {socket code : Nat}
    (timely : client.stopped = true ∨ client.control = some socket)
    (sound : (client.closed socket code).Sound)
    (load : (client.closed socket code).load ≤ (client.closed socket code).allowance) :
    (client.closed socket code).Beating ∧
      (client.closed socket code).books = (0, client.books.2) := by
  have beats : (client.leave socket).controlHeartbeatInterval = none ∧
      (client.leave socket).controlHeartbeatDeadline = none ∧
      (client.leave socket).controlHeartbeatMisses = 0 ∧
      (client.leave socket).history = client.history := by
    unfold ControlClient.leave
    split
    · exact ⟨rfl, rfl, rfl, rfl⟩
    · rename_i other
      have stopped := timely.resolve_right other
      obtain ⟨interval, deadline⟩ := beating.silent (.inr stopped)
      exact ⟨interval, deadline, beating.calm stopped, rfl⟩
  have down : ∀ (other : Nat) (state : ReadyState),
      (client.leave socket).sockets[other]? = some state → state.isUp = false := by
    intro other state found
    have found : (client.sockets.set socket .closed)[other]? = some state := by
      unfold ControlClient.leave at found
      split at found <;> exact found
    by_cases same : socket = other
    · subst same
      rw [List.getElem?_set_self'] at found
      obtain ⟨_, _, rfl⟩ := Option.map_eq_some_iff.mp found
      rfl
    · rw [List.getElem?_set_ne same] at found
      rcases timely with stopped | connected
      · exact beating.down (.inr stopped) found
      · by_contra up
        have current := (beating.up other state found (by simpa using up)).1
        rw [connected] at current
        exact same (Option.some.inj current)
  have fields : (client.closed socket code).sockets = (client.leave socket).sockets ∧
      (client.closed socket code).controlHeartbeatInterval = none ∧
      (client.closed socket code).controlHeartbeatDeadline = none ∧
      (client.closed socket code).controlHeartbeatMisses = 0 ∧
      (client.closed socket code).history = client.history := by
    unfold ControlClient.closed
    dsimp only
    split
    · exact ⟨rfl, beats⟩
    · split <;> exact ⟨rfl, beats⟩
  obtain ⟨sockets, interval, deadline, misses, history⟩ := fields
  refine ⟨⟨sound, load, ?_, by simp [interval], by simp [deadline], fun _ => misses⟩, ?_⟩
  · intro other state found up
    rw [sockets] at found
    rw [down other state found] at up
    cases up
  · rw [books, misses, history]
    rfl

theorem Beating.reconnect (beating : client.Beating) {timer : Nat}
    (pending : timer ∈ client.reconnects) (sound : (client.reconnect timer).Sound)
    (load : (client.reconnect timer).load ≤ (client.reconnect timer).allowance) :
    (client.reconnect timer).Beating ∧ (client.reconnect timer).books = client.books := by
  have waits := List.length_pos_of_mem pending
  have bound := beating.load
  unfold ControlClient.load at bound
  have running : client.stopped = false := by
    by_contra stopped
    rw [allowance, if_pos (by simpa using stopped)] at bound
    omega
  rw [allowance, running, if_neg Bool.false_ne_true] at bound
  have idle : client.control = none := by
    by_contra connected
    obtain ⟨socket, connected⟩ := Option.ne_none_iff_exists'.mp connected
    obtain ⟨state, found, _⟩ := beating.live socket connected
    have given := load_control beating.toSound connected found
    have counted := countP_set .closed found
    change _ = _ + 0 at counted
    omega
  obtain ⟨interval, deadline⟩ := beating.silent (.inl idle)
  have fields : (client.reconnect timer).sockets = client.sockets ++ [.connecting] ∧
      (client.reconnect timer).control = some client.sockets.length ∧
      (client.reconnect timer).stopped = false ∧
      (client.reconnect timer).controlHeartbeatInterval = none ∧
      (client.reconnect timer).controlHeartbeatDeadline = none ∧
      (client.reconnect timer).books = client.books := by
    simp [ControlClient.reconnect, connectControl, elapse, running, interval, deadline, books]
  obtain ⟨sockets, connected, runs, noInterval, noDeadline, same⟩ := fields
  refine ⟨⟨sound, load, ?_, by simp [noInterval], by simp [noDeadline], ?_⟩, same⟩
  · exact beating.connects (.inl idle) sockets connected runs
  · rw [runs]
    exact nofun

theorem Beating.expire (beating : client.Beating) {socket : Nat}
    (due : client.controlHeartbeatDeadline = some socket)
    (sound : (client.expire socket).Sound)
    (load : (client.expire socket).load ≤ (client.expire socket).allowance) :
    (client.expire socket).Beating ∧ (client.expire socket).books = beat client.books .expire := by
  obtain ⟨connected, running⟩ := beating.deadline socket due
  have current : ¬ (client.control ≠ some socket ∨ client.stopped = true) := by
    simp [connected, running]
  have calm : ∀ {misses : Nat}, client.stopped = true → misses = 0 := by
    intro misses stopped
    rw [running] at stopped
    cases stopped
  have told : beat client.books .expire = (client.controlHeartbeatMisses + 1,
      client.history.countP ControlAct.isTermination +
        if client.controlHeartbeatMisses + 1 < controlHeartbeatMissesBeforeReconnect then 0
        else 1) := rfl
  rw [told]
  unfold ControlClient.expire at *
  dsimp only at *
  rw [if_neg current] at *
  split
  · rename_i few
    rw [if_pos few] at sound load
    refine ⟨⟨sound, load, beating.up, beating.interval, nofun, calm⟩, ?_⟩
    rfl
  · rename_i many
    rw [if_neg many] at sound load
    refine ⟨⟨sound, load, ?_, beating.interval, nofun, calm⟩, ?_⟩
    · intro other state found up
      rw [beating.gives connected found] at up
      cases up
    · rw [books, List.countP_append]
      rfl

theorem Beating.step {label : ControlLabel} (beating : client.Beating)
    (timely : ¬ client.LateClose label) (stepped : tunnelControl.step client label = some next) :
    next.Beating ∧ next.books = beat client.books label := by
  obtain ⟨sound, grown⟩ := beating.toSound.step stepped
  have load : next.load ≤ next.allowance := by
    have bound := beating.load
    rw [lateCost, if_neg timely] at grown
    omega
  cases label with
  | start =>
      obtain rfl := Option.some.inj stepped
      exact beating.start sound load
  | stop =>
      obtain rfl := Option.some.inj stepped
      exact beating.stop sound load
  | opened socket =>
      simp only [tunnelControl] at stepped
      split at stepped
      · rename_i connecting
        obtain rfl := Option.some.inj stepped
        exact beating.opened connecting sound load
      · cases stepped
  | ready socket =>
      simp only [tunnelControl] at stepped
      split at stepped
      · obtain rfl := Option.some.inj stepped
        exact ⟨⟨sound, load, beating.up, beating.interval, beating.deadline, beating.calm⟩, rfl⟩
      · cases stepped
  | pong socket =>
      simp only [tunnelControl] at stepped
      split at stepped
      · obtain rfl := Option.some.inj stepped
        exact ⟨⟨sound, load, beating.up, beating.interval, nofun, fun _ => rfl⟩, rfl⟩
      · cases stepped
  | closed socket code =>
      simp only [tunnelControl] at stepped
      split at stepped
      · cases stepped
      · obtain rfl := Option.some.inj stepped
        refine beating.closed ?_ sound load
        by_contra other
        obtain ⟨running, different⟩ := not_or.mp other
        exact timely ⟨by simpa using running, different⟩
  | reconnect timer =>
      simp only [tunnelControl] at stepped
      split at stepped
      · rename_i pending
        obtain rfl := Option.some.inj stepped
        exact beating.reconnect pending sound load
      · cases stepped
  | probe =>
      obtain ⟨⟨socket, elapsed⟩, interval, rfl⟩ := Option.map_eq_some_iff.mp stepped
      have current := beating.interval _ interval
      unfold ControlClient.probe at *
      split
      · exact ⟨beating, rfl⟩
      · rename_i probes
        rw [if_neg probes] at sound load
        refine ⟨⟨sound, load, beating.up, ?_, ?_, beating.calm⟩, ?_⟩
        · intro beat started
          cases started
          exact current
        · intro other started
          cases started
          exact current
        · simp only [beat, books, List.countP_append]
          split <;> simp [ControlAct.isTermination]
  | expire =>
      obtain ⟨socket, due, rfl⟩ := Option.map_eq_some_iff.mp stepped
      exact beating.expire due sound load
  | relayEvent topic =>
      obtain rfl := Option.some.inj stepped
      have still : ∀ {other : ControlClient}, other.Sound → other.load ≤ other.allowance →
          (∃ epoch history, other =
            { client with vaultMutationEpoch := epoch, history := history } ∧
            history.countP ControlAct.isTermination =
              client.history.countP ControlAct.isTermination) →
          other.Beating ∧ other.books = client.books := by
        rintro _ sound load ⟨epoch, history, rfl, same⟩
        refine ⟨⟨sound, load, beating.up, beating.interval, beating.deadline, beating.calm⟩, ?_⟩
        rw [books, same]
        rfl
      refine still sound load ?_
      unfold ControlClient.sendRelayEvent
      dsimp only
      split <;> split <;> exact ⟨_, _, rfl, by simp [ControlAct.isTermination]⟩

end Heartbeat

/-- **A connection is given up for four probes in a row without an answer.** In every run without
late closes, the missed probes and the connections given up are those that the starts, answers and
expired deadlines tell. -/
theorem heartbeat_exact {labels : List ControlLabel} {target : ControlClient}
    (run : tunnelControl.Run (fun client label => ¬ client.LateClose label) new labels target) :
    (target.controlHeartbeatMisses, target.history.countP ControlAct.isTermination) =
      labels.foldl beat (0, 0) := by
  have keep : ∀ client label next, ¬ LateClose client label →
      tunnelControl.step client label = some next → client.Beating → next.Beating :=
    fun _ _ _ timely stepped beating => (beating.step timely stepped).1
  have follow : ∀ client label next, ¬ LateClose client label →
      tunnelControl.step client label = some next → client.Beating →
        next.books = beat client.books label :=
    fun _ _ _ timely stepped beating => (beating.step timely stepped).2
  exact run.foldl_eq keep follow beating_new

/-- Four expired deadlines give the connection up. -/
theorem heartbeat_exact_lost : ∃ target, tunnelControl.Run
      (fun client label => ¬ client.LateClose label) new
      [.start, .opened 0, .probe, .expire, .probe, .expire, .probe, .expire, .probe, .expire]
      target ∧
    (target.controlHeartbeatMisses, target.history.countP ControlAct.isTermination) = (4, 1) := by
  obtain ⟨target, run, _⟩ : ∃ target, tunnelControl.Run
      (fun client label => ¬ client.LateClose label) new
      [.start, .opened 0, .probe, .expire, .probe, .expire, .probe, .expire, .probe, .expire]
        target ∧ target.sockets = [.closing] := Machine.evaluate_view (by decide)
  exact ⟨target, run, heartbeat_exact run⟩

section Epoch

/-- The changes told so far are the epoch, and every frame carries those told before it. -/
structure Epochal (client : ControlClient) : Prop where
  epoch : client.vaultMutationEpoch = client.history.countP ControlAct.isChange
  frames : ∀ front act back, client.history = front ++ act :: back →
    ∀ epoch, act.epoch = some epoch → epoch = front.countP ControlAct.isChange

/-- An act after which the history is epochal. -/
theorem Epochal.extend (epochal : client.Epochal) (act : ControlAct)
    (history : next.history = client.history ++ [act])
    (counts : next.vaultMutationEpoch = client.vaultMutationEpoch + act.isChange.toNat)
    (carries : ∀ epoch, act.epoch = some epoch → epoch = client.vaultMutationEpoch) :
    next.Epochal where
  epoch := by
    rw [counts, history, epochal.epoch, List.countP_append, List.countP_singleton]
    cases act.isChange <;> rfl
  frames := by
    intro front other back split epoch carried
    rw [history] at split
    rcases List.eq_nil_or_concat back with rfl | ⟨front', last, rfl⟩
    · obtain ⟨rfl, same⟩ := List.append_inj' split rfl
      cases same
      rw [carries epoch carried, epochal.epoch]
    · have shorter : client.history = front ++ other :: front' := by
        rw [List.concat_eq_append, ← List.cons_append, ← List.append_assoc] at split
        exact (List.append_inj' split rfl).1
      exact epochal.frames front other front' shorter epoch carried

/-- What leaves the history and the epoch leaves them in step. -/
theorem Epochal.keeps (epochal : client.Epochal) (history : next.history = client.history)
    (epoch : next.vaultMutationEpoch = client.vaultMutationEpoch) : next.Epochal :=
  ⟨by rw [epoch, history, epochal.epoch], by rw [history]; exact epochal.frames⟩

theorem epochal_new : new.Epochal where
  epoch := rfl
  frames := by simp [new]

theorem Epochal.step {label : ControlLabel} (epochal : client.Epochal)
    (stepped : tunnelControl.step client label = some next) : next.Epochal := by
  cases label with
  | start =>
      obtain rfl := Option.some.inj stepped
      unfold ControlClient.start
      split
      · exact epochal
      · cases started : client.hasStarted with
        | false => exact epochal.keeps (by simp [connectControl]) (by simp [connectControl])
        | true =>
            exact epochal.extend .restarted (by simp [connectControl])
              (by simp [connectControl, ControlAct.isChange]) nofun
  | stop =>
      obtain rfl := Option.some.inj stepped
      exact epochal.keeps rfl rfl
  | opened socket =>
      simp only [tunnelControl] at stepped
      split at stepped
      · obtain rfl := Option.some.inj stepped
        refine epochal.extend (.sent socket (.hello client.vaultMutationEpoch)) rfl rfl ?_
        intro epoch carried
        exact (Option.some.inj carried).symm
      · cases stepped
  | ready socket =>
      simp only [tunnelControl] at stepped
      split at stepped
      · obtain rfl := Option.some.inj stepped
        exact epochal.keeps rfl rfl
      · cases stepped
  | pong socket =>
      simp only [tunnelControl] at stepped
      split at stepped
      · obtain rfl := Option.some.inj stepped
        exact epochal.keeps rfl rfl
      · cases stepped
  | closed socket code =>
      simp only [tunnelControl] at stepped
      split at stepped
      · cases stepped
      · obtain rfl := Option.some.inj stepped
        have left : (client.leave socket).Epochal := by
          unfold ControlClient.leave
          split <;> exact epochal.keeps rfl rfl
        unfold ControlClient.closed
        dsimp only
        split
        · exact left
        · split <;> exact left.keeps rfl rfl
  | reconnect timer =>
      simp only [tunnelControl] at stepped
      split at stepped
      · obtain rfl := Option.some.inj stepped
        unfold ControlClient.reconnect connectControl
        split <;> exact epochal.keeps rfl rfl
      · cases stepped
  | probe =>
      obtain ⟨⟨socket, elapsed⟩, _, rfl⟩ := Option.map_eq_some_iff.mp stepped
      unfold ControlClient.probe
      split
      · exact epochal
      · have pinged : Epochal { client with
            history := client.history ++ [.sent socket (.ping false)] } :=
          epochal.extend (.sent socket (.ping false)) rfl rfl nofun
        dsimp only
        split
        · exact pinged.extend (.sent socket (.ping true)) (by simp) rfl nofun
        · exact pinged.keeps rfl rfl
  | expire =>
      obtain ⟨socket, _, rfl⟩ := Option.map_eq_some_iff.mp stepped
      unfold ControlClient.expire
      dsimp only
      split
      · exact epochal.keeps rfl rfl
      · split
        · exact epochal.keeps rfl rfl
        · exact epochal.extend (.terminated socket) rfl rfl nofun
  | relayEvent topic =>
      obtain rfl := Option.some.inj stepped
      unfold ControlClient.sendRelayEvent
      by_cases changes : isVaultMutation topic = true
      · have mutated : Epochal { client with
            vaultMutationEpoch := client.vaultMutationEpoch + 1
            history := client.history ++ [.mutated] } :=
          epochal.extend .mutated rfl rfl nofun
        simp only [changes, if_true]
        split
        · exact mutated
        · rename_i socket _
          refine mutated.extend (.sent socket (.event topic _)) rfl rfl ?_
          intro epoch carried
          exact (Option.some.inj carried).symm
      · simp only [changes]
        split
        · exact epochal
        · rename_i socket _
          exact epochal.extend (.sent socket (.event topic none)) rfl rfl nofun

end Epoch

/-- **Epochs tell the changes.** In every run, two frames carry the same epoch exactly when no
change of a vault and no restart comes between them. -/
theorem epoch_exact {labels : List ControlLabel} {target : ControlClient}
    (run : tunnelControl.Run (fun _ _ => True) new labels target)
    {front middle back : List ControlAct} {first second : ControlAct} {before after : Nat}
    (history : target.history = front ++ first :: (middle ++ second :: back))
    (sent : first.epoch = some before) (later : second.epoch = some after) :
    before = after ↔ ∀ act ∈ middle, act.isChange = false := by
  have keep : ∀ client label next, True → tunnelControl.step client label = some next →
      client.Epochal → next.Epochal := fun _ _ _ _ stepped epochal => epochal.step stepped
  have epochal := run.invariant keep epochal_new
  have frame : first.isChange = false := by
    cases first <;> first | rfl | cases sent
  have counted := epochal.frames front first _ history before sent
  have recounted := epochal.frames (front ++ first :: middle) second back (by simp [history])
    after later
  rw [List.countP_append, List.countP_cons, frame, ← counted] at recounted
  have quiet : middle.countP ControlAct.isChange = 0 ↔ ∀ act ∈ middle, act.isChange = false := by
    rw [List.countP_eq_zero]
    simp
  rw [recounted, ← quiet, if_neg Bool.false_ne_true]
  omega

/-- A change between a greeting and a reconnection is told by the next greeting. -/
theorem epoch_exact_reconnect : ∃ target, tunnelControl.Run (fun _ _ => True) new
      [.start, .opened 0, .closed 0 1006, .relayEvent (units "vault.tree.changed"), .reconnect 0,
        .opened 1] target ∧
    ((0 : Nat) = 1 ↔ ∀ act ∈ [ControlAct.mutated], act.isChange = false) := by
  obtain ⟨target, run, history⟩ : ∃ target, tunnelControl.Run (fun _ _ => True) new
      [.start, .opened 0, .closed 0 1006, .relayEvent (units "vault.tree.changed"), .reconnect 0,
        .opened 1] target ∧
      target.history = [] ++ .sent 0 (.hello 0) :: ([.mutated] ++ .sent 1 (.hello 1) :: []) :=
    Machine.evaluate_view (by decide)
  exact ⟨target, run, epoch_exact run history rfl rfl⟩

end ControlClient

end Kb1Daemon
