import Kb1Daemon.Foundation.Machine
import Kb1Daemon.Tunnel.Mux

/-! # The document provider

The page sends every edit of a document to the daemon, waits until the daemon acknowledges it, and
reports which edits are outstanding. An edit that is not acknowledged in time lapses.
-/

namespace Kb1Daemon

inductive ProviderStatus where
  | connecting
  | syncing
  | opened
  | closed
  | error
  deriving DecidableEq, Repr

inductive SaveState where
  | saved
  | saving (pending : Nat)
  | failed (pending : Nat) (message : String)
  deriving DecidableEq, Repr

def unconfirmedMessage : String :=
  "KB-1 has not confirmed your latest edit is saved. " ++
    "Keep this tab open while the connection recovers."

/-- An edit that is not acknowledged, and the timer that is set for it. -/
structure PendingSaveAck (Update : Type) where
  ackId : Nat
  update : Update
  timedOut : Bool
  timeout : Option Nat
  deriving DecidableEq, Repr

/-- What has happened to a provider and what it has done. An edit is named by its number. -/
inductive ProviderAct (Update : Type) where
  | edited (ackId : Nat) (update : Update)
  | acknowledged (ackId : Nat)
  | lapsed (ackId : Nat)
  | sent (ackId : Nat) (update : Update)
  | sync
  | status (status : ProviderStatus)
  | reported (state : SaveState)
  | synced
  | sessionEvent
  | failure
  | destroyed (state : SaveState)
  deriving DecidableEq, Repr

/-- The provider, the timers that are set with the edits they are for, and its history. -/
structure DocumentProvider (Update : Type) where
  readyState : ReadyState
  destroyed : Bool
  latestSaveState : SaveState
  nextSaveAckSeq : Nat
  pendingSaveAcks : List (PendingSaveAck Update)
  timeouts : List (Nat × Nat)
  nextTimeout : Nat
  history : List (ProviderAct Update)
  deriving DecidableEq, Repr

namespace DocumentProvider

variable {Update : Type}

def createLocalDocumentProvider : DocumentProvider Update where
  readyState := .connecting
  destroyed := false
  latestSaveState := .saved
  nextSaveAckSeq := 0
  pendingSaveAcks := []
  timeouts := []
  nextTimeout := 0
  history := [.status .connecting]

def note (provider : DocumentProvider Update) (act : ProviderAct Update) :
    DocumentProvider Update :=
  { provider with history := provider.history ++ [act] }

/-- The state that is published for pending edits. -/
def saveStateOf (pending : List (PendingSaveAck Update)) : SaveState :=
  if pending.isEmpty then .saved
  else if pending.any PendingSaveAck.timedOut then .failed pending.length unconfirmedMessage
  else .saving pending.length

def publishSaveState (provider : DocumentProvider Update) : DocumentProvider Update :=
  { provider with latestSaveState := saveStateOf provider.pendingSaveAcks }.note
    (.reported (saveStateOf provider.pendingSaveAcks))

def saveStateOnDestroy (provider : DocumentProvider Update) : SaveState :=
  if provider.pendingSaveAcks.isEmpty then provider.latestSaveState
  else
    match provider.latestSaveState with
    | .failed pending message => .failed pending message
    | _ => .saving provider.pendingSaveAcks.length

/-- An entry of the pending edits is changed. -/
def modifyPending (provider : DocumentProvider Update) (ackId : Nat)
    (change : PendingSaveAck Update → PendingSaveAck Update) : DocumentProvider Update :=
  { provider with
    pendingSaveAcks := provider.pendingSaveAcks.map fun pending =>
      if pending.ackId = ackId then change pending else pending }

def armSaveAckTimeout (provider : DocumentProvider Update) (pending : PendingSaveAck Update) :
    DocumentProvider Update :=
  if pending.timeout.isSome || pending.timedOut || provider.destroyed then provider
  else
    { provider.modifyPending pending.ackId fun entry =>
        { entry with timeout := some provider.nextTimeout } with
      timeouts := provider.timeouts ++ [(provider.nextTimeout, pending.ackId)]
      nextTimeout := provider.nextTimeout + 1 }

def sendAckedUpdate (provider : DocumentProvider Update) (pending : PendingSaveAck Update) :
    DocumentProvider Update :=
  if provider.readyState ≠ .opened then provider
  else (provider.note (.sent pending.ackId pending.update)).armSaveAckTimeout pending

def drainPendingSaveAcks (provider : DocumentProvider Update) : DocumentProvider Update :=
  provider.pendingSaveAcks.foldl sendAckedUpdate provider

def acknowledgeSave (provider : DocumentProvider Update) (ackId : Nat) :
    DocumentProvider Update :=
  match provider.pendingSaveAcks.find? fun pending => pending.ackId = ackId with
  | none => provider
  | some pending =>
      publishSaveState { provider with
        timeouts := provider.timeouts.filter fun timeout => pending.timeout ≠ some timeout.1
        pendingSaveAcks := provider.pendingSaveAcks.filter fun other => other.ackId ≠ ackId }

/-- The entry of the next edit. -/
def nextPending (provider : DocumentProvider Update) (update : Update) : PendingSaveAck Update :=
  ⟨provider.nextSaveAckSeq + 1, update, false, none⟩

def addPending (provider : DocumentProvider Update) (update : Update) : DocumentProvider Update :=
  { provider with
    nextSaveAckSeq := provider.nextSaveAckSeq + 1
    pendingSaveAcks := provider.pendingSaveAcks ++ [provider.nextPending update]
    history := provider.history ++ [.edited (provider.nextSaveAckSeq + 1) update] }

def trackLocalUpdate (provider : DocumentProvider Update) (update : Update) :
    DocumentProvider Update :=
  publishSaveState ((provider.addPending update).sendAckedUpdate (provider.nextPending update))

/-- The document has changed; a change that came over the socket is not tracked. -/
def updateHandler (provider : DocumentProvider Update) (update : Update) (remote : Bool) :
    DocumentProvider Update :=
  if remote || provider.destroyed then provider else provider.trackLocalUpdate update

/-- The socket opens: the first step of the protocol and every pending edit are sent. -/
def opened (provider : DocumentProvider Update) : DocumentProvider Update :=
  drainPendingSaveAcks
    (({ provider with readyState := .opened }.note (.status .syncing)).note .sync)

/-- The timer of an edit fires. -/
def lapse (provider : DocumentProvider Update) (timeout ackId : Nat) : DocumentProvider Update :=
  let fired := { provider with
    timeouts := provider.timeouts.filter fun other => other.1 ≠ timeout
    history := provider.history ++ [.lapsed ackId] }
  if (fired.pendingSaveAcks.find? fun pending => pending.ackId = ackId).isNone ||
      fired.destroyed then fired
  else
    publishSaveState (fired.modifyPending ackId fun pending =>
      { pending with timedOut := true, timeout := none })

/-- The socket is told to close. -/
def leaving : ReadyState → ReadyState
  | .closed => .closed
  | _ => .closing

/-- A message throws while it is handled. The code 1003 with which the socket is then to be closed
is none that a browser takes: `close` throws, and the socket stays as it is. -/
def garbled (provider : DocumentProvider Update) : DocumentProvider Update :=
  provider.note .failure

/-- The socket has closed; a failure to open the document is told apart. -/
def socketClosed (provider : DocumentProvider Update) (openFailure : Bool) :
    DocumentProvider Update :=
  let left := { provider with readyState := .closed }.note (.status .closed)
  if !provider.destroyed && openFailure then left.note .failure else left

def destroy (provider : DocumentProvider Update) : DocumentProvider Update :=
  ({ provider with
    destroyed := true
    pendingSaveAcks := []
    timeouts := provider.timeouts.filter fun timeout =>
      provider.pendingSaveAcks.all fun pending => pending.timeout ≠ some timeout.1
    readyState := leaving provider.readyState }.note (.status .closed)).note
      (.destroyed provider.saveStateOnDestroy)

end DocumentProvider

/-- An event of a provider. -/
inductive ProviderLabel (Update : Type) where
  | opened
  | updated (update : Update) (remote : Bool)
  | acknowledged (ackId : Nat)
  | synced
  | sync (replies : Bool)
  | sessionEvent (decoded : Bool)
  | ignored
  | garbled
  | failed
  | closing
  | closed (openFailure : Bool)
  | lapsed (timeout : Nat)
  | destroy
  deriving DecidableEq, Repr

/-- The machine of the provider. A message is handed over only while the socket is open. -/
def documentProvider {Update : Type} :
    Machine (DocumentProvider Update) (ProviderLabel Update) where
  step provider label :=
    let received (next : DocumentProvider Update) :=
      if provider.readyState = .opened then some next else none
    match label with
    | .opened => if provider.readyState = .connecting then some provider.opened else none
    | .updated update remote => some (provider.updateHandler update remote)
    | .acknowledged ackId =>
        received ((provider.note (.acknowledged ackId)).acknowledgeSave ackId)
    | .synced => received ((provider.note (.status .opened)).note .synced)
    | .sync replies => received (if replies then provider.note .sync else provider)
    | .sessionEvent decoded => received (if decoded then provider.note .sessionEvent else provider)
    | .ignored => received provider
    | .garbled => received provider.garbled
    | .failed => some ((provider.note (.status .error)).note .failure)
    -- The peer closes the socket.
    | .closing => received { provider with readyState := .closing }
    | .closed openFailure =>
        if provider.readyState = .closed then none else some (provider.socketClosed openFailure)
    | .lapsed timeout =>
        (provider.timeouts.find? fun other => other.1 = timeout).map fun other =>
          provider.lapse timeout other.2
    | .destroy => some provider.destroy

namespace ProviderAct

variable {Update : Type}

/-- The edits that are outstanding after an act. -/
def follow (ids : List Nat) : ProviderAct Update → List Nat
  | .edited ackId _ => ids ++ [ackId]
  | .acknowledged ackId => ids.erase ackId
  | _ => ids

def edit : ProviderAct Update → Option (Nat × Update)
  | .edited ackId update => some (ackId, update)
  | _ => none

def frame : ProviderAct Update → Option (Nat × Update)
  | .sent ackId update => some (ackId, update)
  | _ => none

def lapse : ProviderAct Update → Option Nat
  | .lapsed ackId => some ackId
  | _ => none

def report : ProviderAct Update → Option SaveState
  | .reported state => some state
  | _ => none

end ProviderAct

section History

variable {Update : Type}

/-- The edits that have not been acknowledged since they were made. -/
def outstanding (history : List (ProviderAct Update)) : List Nat :=
  history.foldl ProviderAct.follow []

def editedUpdates (history : List (ProviderAct Update)) : List (Nat × Update) :=
  history.filterMap ProviderAct.edit

def sentUpdates (history : List (ProviderAct Update)) : List (Nat × Update) :=
  history.filterMap ProviderAct.frame

def lapsedEdits (history : List (ProviderAct Update)) : List Nat :=
  history.filterMap ProviderAct.lapse

/-- What was reported last; nothing is outstanding before the first report. -/
def lastReport (history : List (ProviderAct Update)) : SaveState :=
  ((history.filterMap ProviderAct.report).getLast?).getD .saved

variable (history : List (ProviderAct Update)) (act : ProviderAct Update)

@[simp] theorem outstanding_concat :
    outstanding (history ++ [act]) = act.follow (outstanding history) := by
  rw [outstanding, List.foldl_append]
  rfl

@[simp] theorem editedUpdates_concat :
    editedUpdates (history ++ [act]) = editedUpdates history ++ act.edit.toList := by
  rw [editedUpdates, List.filterMap_append]
  cases act <;> rfl

@[simp] theorem sentUpdates_concat :
    sentUpdates (history ++ [act]) = sentUpdates history ++ act.frame.toList := by
  rw [sentUpdates, List.filterMap_append]
  cases act <;> rfl

@[simp] theorem lapsedEdits_concat :
    lapsedEdits (history ++ [act]) = lapsedEdits history ++ act.lapse.toList := by
  rw [lapsedEdits, List.filterMap_append]
  cases act <;> rfl

variable {history act}

/-- An act that is no edit adds none. -/
theorem editedUpdates_other (other : act.edit = none) :
    editedUpdates (history ++ [act]) = editedUpdates history := by
  rw [editedUpdates_concat, other]
  exact List.append_nil _

/-- An act that sends nothing adds no frame. -/
theorem sentUpdates_other (other : act.frame = none) :
    sentUpdates (history ++ [act]) = sentUpdates history := by
  rw [sentUpdates_concat, other]
  exact List.append_nil _

theorem lapsedEdits_other (other : act.lapse = none) :
    lapsedEdits (history ++ [act]) = lapsedEdits history := by
  rw [lapsedEdits_concat, other]
  exact List.append_nil _

theorem lastReport_concat :
    lastReport (history ++ [act]) = act.report.getD (lastReport history) := by
  rw [lastReport, List.filterMap_append]
  cases act <;> simp [ProviderAct.report, lastReport]

end History

namespace DocumentProvider

variable {Update : Type} {provider : DocumentProvider Update}

/-- The pending edits are those that are outstanding, and their timers are set or have fired as the
history tells. -/
structure Sound (provider : DocumentProvider Update) : Prop where
  numbered : (editedUpdates provider.history).map Prod.fst =
    List.range' 1 provider.nextSaveAckSeq
  outstanding : provider.destroyed = false →
    provider.pendingSaveAcks.map PendingSaveAck.ackId = outstanding provider.history
  ended : provider.destroyed = true → provider.pendingSaveAcks = []
  ordered : (provider.pendingSaveAcks.map PendingSaveAck.ackId).Pairwise (· < ·)
  bounded : ∀ pending ∈ provider.pendingSaveAcks, pending.ackId ≤ provider.nextSaveAckSeq
  lapsed : ∀ pending ∈ provider.pendingSaveAcks,
    pending.timedOut = true ↔ pending.ackId ∈ lapsedEdits provider.history
  sent : ∀ pending ∈ provider.pendingSaveAcks, pending.timeout.isSome ∨ pending.timedOut = true ↔
    pending.ackId ∈ (sentUpdates provider.history).map Prod.fst
  single : ∀ pending ∈ provider.pendingSaveAcks, pending.timedOut = true → pending.timeout = none
  timed : ∀ timeout ackId, (timeout, ackId) ∈ provider.timeouts ↔
    ∃ pending ∈ provider.pendingSaveAcks, pending.ackId = ackId ∧ pending.timeout = some timeout
  fresh : ∀ entry ∈ provider.timeouts, entry.1 < provider.nextTimeout
  distinct : (provider.timeouts.map Prod.fst).Nodup
  sentBounded : ∀ ackId ∈ (sentUpdates provider.history).map Prod.fst,
    ackId ≤ provider.nextSaveAckSeq
  lapsedBounded : ∀ ackId ∈ lapsedEdits provider.history, ackId ≤ provider.nextSaveAckSeq

theorem sound_new : (createLocalDocumentProvider : DocumentProvider Update).Sound := by
  constructor <;>
    simp [createLocalDocumentProvider, editedUpdates, sentUpdates, lapsedEdits,
      Kb1Daemon.outstanding, ProviderAct.edit, ProviderAct.frame, ProviderAct.lapse,
      ProviderAct.follow]

/-- An act that is neither an edit nor about one. -/
def Quiet (act : ProviderAct Update) : Prop :=
  act.edit = none ∧ act.frame = none ∧ act.lapse = none ∧ ∀ ids, act.follow ids = ids

theorem Quiet.history {act : ProviderAct Update} (quiet : Quiet act) :
    editedUpdates (provider.note act).history = editedUpdates provider.history ∧
      sentUpdates (provider.note act).history = sentUpdates provider.history ∧
      lapsedEdits (provider.note act).history = lapsedEdits provider.history ∧
      Kb1Daemon.outstanding (provider.note act).history =
        Kb1Daemon.outstanding provider.history := by
  obtain ⟨edit, frame, lapse, follow⟩ := quiet
  refine ⟨editedUpdates_other edit, sentUpdates_other frame, lapsedEdits_other lapse, ?_⟩
  exact (outstanding_concat _ _).trans (follow _)

theorem Sound.quiet (sound : provider.Sound) {act : ProviderAct Update} (quiet : Quiet act) :
    (provider.note act).Sound := by
  obtain ⟨edits, frames, lapses, ids⟩ := @quiet.history _ provider
  exact
    { sound with
      numbered := edits ▸ sound.numbered
      outstanding := ids ▸ sound.outstanding
      lapsed := lapses ▸ sound.lapsed
      sent := frames ▸ sound.sent
      sentBounded := frames ▸ sound.sentBounded
      lapsedBounded := lapses ▸ sound.lapsedBounded }

theorem Sound.become (sound : provider.Sound) (state : ReadyState) :
    ({ provider with readyState := state } : DocumentProvider Update).Sound :=
  { sound with }

theorem Sound.report (sound : provider.Sound) (state : SaveState) :
    ({ provider with latestSaveState := state } : DocumentProvider Update).Sound :=
  { sound with }

/-- Two pending edits with one number are one. -/
theorem Sound.eq_of_ackId (sound : provider.Sound) {first second : PendingSaveAck Update}
    (listed : first ∈ provider.pendingSaveAcks) (other : second ∈ provider.pendingSaveAcks)
    (same : first.ackId = second.ackId) : first = second :=
  List.inj_on_of_nodup_map (sound.ordered.imp Nat.ne_of_lt) listed other same

/-- A provider with pending edits is kept. -/
theorem Sound.kept (sound : provider.Sound) {pending : PendingSaveAck Update}
    (listed : pending ∈ provider.pendingSaveAcks) : provider.destroyed = false := by
  by_contra gone
  rw [Bool.not_eq_false] at gone
  rw [sound.ended gone] at listed
  exact List.not_mem_nil listed

/-- A pending edit that was not sent has no timer. -/
theorem Sound.unsent (sound : provider.Sound) {pending : PendingSaveAck Update}
    (listed : pending ∈ provider.pendingSaveAcks)
    (unsent : pending.ackId ∉ (sentUpdates provider.history).map Prod.fst) :
    pending.timeout = none ∧ pending.timedOut = false := by
  have idle := mt (sound.sent pending listed).mp unsent
  rw [not_or, Bool.not_eq_true, Option.isSome_eq_false_iff, Option.isNone_iff_eq_none,
    Bool.not_eq_true] at idle
  exact idle

theorem map_ackId_modify {pending : List (PendingSaveAck Update)} {ackId : Nat}
    {change : PendingSaveAck Update → PendingSaveAck Update}
    (keeps : ∀ entry, (change entry).ackId = entry.ackId) :
    (pending.map fun entry => if entry.ackId = ackId then change entry else entry).map
      PendingSaveAck.ackId = pending.map PendingSaveAck.ackId := by
  rw [List.map_map]
  refine List.map_congr_left fun entry _ => ?_
  rw [Function.comp_apply]
  split
  · exact keeps entry
  · rfl

/-- Of the pending edits only the one with the number is changed. -/
theorem Sound.mem_modifyPending (sound : provider.Sound) {pending : PendingSaveAck Update}
    (listed : pending ∈ provider.pendingSaveAcks)
    (change : PendingSaveAck Update → PendingSaveAck Update) (entry : PendingSaveAck Update) :
    entry ∈ (provider.modifyPending pending.ackId change).pendingSaveAcks ↔
      entry = change pending ∨
        entry ∈ provider.pendingSaveAcks ∧ entry.ackId ≠ pending.ackId := by
  constructor
  · intro inside
    obtain ⟨old, there, rfl⟩ := List.mem_map.mp inside
    split
    · rename_i same
      rw [sound.eq_of_ackId there listed same]
      exact .inl rfl
    · rename_i other
      exact .inr ⟨there, other⟩
  · rintro (rfl | ⟨there, other⟩)
    · exact List.mem_map.mpr ⟨pending, listed, if_pos rfl⟩
    · exact List.mem_map.mpr ⟨entry, there, if_neg other⟩

theorem sendAckedUpdate_eq (sound : provider.Sound) (up : provider.readyState = .opened)
    (kept : provider.destroyed = false) {pending : PendingSaveAck Update}
    (listed : pending ∈ provider.pendingSaveAcks)
    (unsent : pending.ackId ∉ (sentUpdates provider.history).map Prod.fst) :
    provider.sendAckedUpdate pending =
      { provider.modifyPending pending.ackId fun entry =>
          { entry with timeout := some provider.nextTimeout } with
        timeouts := provider.timeouts ++ [(provider.nextTimeout, pending.ackId)]
        nextTimeout := provider.nextTimeout + 1
        history := provider.history ++ [.sent pending.ackId pending.update] } := by
  obtain ⟨timeout, timedOut⟩ := sound.unsent listed unsent
  simp [sendAckedUpdate, armSaveAckTimeout, note, modifyPending, up, kept, timeout, timedOut]

theorem Sound.send (sound : provider.Sound) (up : provider.readyState = .opened)
    (kept : provider.destroyed = false) {pending : PendingSaveAck Update}
    (listed : pending ∈ provider.pendingSaveAcks)
    (unsent : pending.ackId ∉ (sentUpdates provider.history).map Prod.fst) :
    (provider.sendAckedUpdate pending).Sound := by
  obtain ⟨timeout, timedOut⟩ := sound.unsent listed unsent
  rw [sendAckedUpdate_eq sound up kept listed unsent]
  have ids := @map_ackId_modify _ provider.pendingSaveAcks pending.ackId
    (fun entry => { entry with timeout := some provider.nextTimeout }) fun _ => rfl
  have cases := sound.mem_modifyPending listed fun entry =>
    { entry with timeout := some provider.nextTimeout }
  constructor
  · simpa [modifyPending, ProviderAct.edit] using sound.numbered
  · intro running
    simpa [modifyPending, ids, ProviderAct.follow] using sound.outstanding running
  · intro gone
    exact absurd (gone.symm.trans kept) (by decide)
  · simpa [modifyPending, ids] using sound.ordered
  · intro entry inside
    rcases (cases entry).mp inside with rfl | ⟨there, _⟩
    · exact sound.bounded pending listed
    · exact sound.bounded entry there
  · intro entry inside
    rcases (cases entry).mp inside with rfl | ⟨there, _⟩
    · simpa [ProviderAct.lapse] using sound.lapsed pending listed
    · simpa [ProviderAct.lapse] using sound.lapsed entry there
  · intro entry inside
    rcases (cases entry).mp inside with rfl | ⟨there, other⟩
    · simp [ProviderAct.frame]
    · simpa [ProviderAct.frame, other] using sound.sent entry there
  · intro entry inside fired
    rcases (cases entry).mp inside with rfl | ⟨there, _⟩
    · exact absurd (fired.symm.trans timedOut) (by decide)
    · exact sound.single entry there fired
  · intro number ackId
    rw [List.mem_append, List.mem_singleton, sound.timed]
    constructor
    · rintro (⟨entry, there, rfl, runs⟩ | added)
      · refine ⟨entry, (cases entry).mpr (.inr ⟨there, fun same => ?_⟩), rfl, runs⟩
        rw [sound.eq_of_ackId there listed same, timeout] at runs
        cases runs
      · obtain ⟨rfl, rfl⟩ := Prod.mk.inj added
        exact ⟨_, (cases _).mpr (.inl rfl), rfl, rfl⟩
    · rintro ⟨entry, inside, rfl, runs⟩
      rcases (cases entry).mp inside with rfl | ⟨there, _⟩
      · exact .inr (Prod.ext (Option.some.inj runs).symm rfl)
      · exact .inl ⟨entry, there, rfl, runs⟩
  · intro entry inside
    rcases List.mem_append.mp inside with there | added
    · exact Nat.lt_succ_of_lt (sound.fresh entry there)
    · rw [List.mem_singleton.mp added]
      exact Nat.lt_succ_self _
  · rw [List.map_append, List.nodup_append]
    refine ⟨sound.distinct, List.nodup_singleton _, fun number there other added => ?_⟩
    obtain ⟨entry, inside, rfl⟩ := List.mem_map.mp there
    rw [List.mem_singleton.mp added]
    exact Nat.ne_of_lt (sound.fresh entry inside)
  · intro ackId inside
    rw [sentUpdates_concat, List.map_append, List.mem_append] at inside
    rcases inside with there | added
    · exact sound.sentBounded ackId there
    · rw [List.mem_singleton.mp added]
      exact sound.bounded pending listed
  · simpa [modifyPending, ProviderAct.lapse] using sound.lapsedBounded

theorem editedUpdates_addPending (provider : DocumentProvider Update) (update : Update) :
    editedUpdates (provider.addPending update).history =
      editedUpdates provider.history ++ [(provider.nextSaveAckSeq + 1, update)] :=
  editedUpdates_concat _ _

/-- A tracked update is not sent yet. -/
theorem sentUpdates_addPending (provider : DocumentProvider Update) (update : Update) :
    sentUpdates (provider.addPending update).history = sentUpdates provider.history :=
  sentUpdates_other rfl

/-- A tracked update lapses nothing. -/
theorem lapsedEdits_addPending (provider : DocumentProvider Update) (update : Update) :
    lapsedEdits (provider.addPending update).history = lapsedEdits provider.history :=
  lapsedEdits_other rfl

/-- The number of the next edit was not sent. -/
theorem Sound.next_unsent (sound : provider.Sound) :
    provider.nextSaveAckSeq + 1 ∉ (sentUpdates provider.history).map Prod.fst :=
  fun inside => Nat.not_succ_le_self _ (sound.sentBounded _ inside)

theorem Sound.added (sound : provider.Sound) (kept : provider.destroyed = false)
    (update : Update) : (provider.addPending update).Sound := by
  have cases : ∀ entry ∈ (provider.addPending update).pendingSaveAcks,
      entry ∈ provider.pendingSaveAcks ∨ entry = provider.nextPending update := by
    intro entry inside
    exact (List.mem_append.mp inside).imp_right List.mem_singleton.mp
  have waiting : provider.nextSaveAckSeq + 1 ∉ lapsedEdits provider.history :=
    fun inside => Nat.not_succ_le_self _ (sound.lapsedBounded _ inside)
  constructor
  · rw [editedUpdates_addPending, List.map_append, sound.numbered]
    exact ((List.range'_concat ..).trans (by rw [Nat.one_mul, Nat.add_comm]; rfl)).symm
  · intro running
    change (provider.pendingSaveAcks ++ _).map _ = Kb1Daemon.outstanding (provider.history ++ [_])
    rw [outstanding_concat, List.map_append, sound.outstanding running]
    rfl
  · intro gone
    exact absurd (gone.symm.trans kept) (by decide)
  · change ((provider.pendingSaveAcks ++ _).map _).Pairwise _
    rw [List.map_append, List.pairwise_append]
    refine ⟨sound.ordered, List.pairwise_singleton _ _, fun ackId there other added => ?_⟩
    obtain ⟨entry, inside, rfl⟩ := List.mem_map.mp there
    rw [List.mem_singleton.mp added]
    exact Nat.lt_succ_of_le (sound.bounded entry inside)
  · intro entry inside
    rcases cases entry inside with there | rfl
    · exact Nat.le_succ_of_le (sound.bounded entry there)
    · exact Nat.le_refl _
  · intro entry inside
    rw [lapsedEdits_addPending]
    rcases cases entry inside with there | rfl
    · exact sound.lapsed entry there
    · simpa [nextPending] using waiting
  · intro entry inside
    rw [sentUpdates_addPending]
    rcases cases entry inside with there | rfl
    · exact sound.sent entry there
    · simpa [nextPending] using sound.next_unsent
  · intro entry inside fired
    rcases cases entry inside with there | rfl
    · exact sound.single entry there fired
    · rfl
  · intro number ackId
    change (number, ackId) ∈ provider.timeouts ↔ _
    rw [sound.timed]
    constructor
    · rintro ⟨entry, there, same, runs⟩
      exact ⟨entry, List.mem_append_left _ there, same, runs⟩
    · rintro ⟨entry, inside, same, runs⟩
      rcases cases entry inside with there | rfl
      · exact ⟨entry, there, same, runs⟩
      · cases runs
  · exact sound.fresh
  · exact sound.distinct
  · intro ackId inside
    rw [sentUpdates_addPending] at inside
    exact Nat.le_succ_of_le (sound.sentBounded ackId inside)
  · intro ackId inside
    rw [lapsedEdits_addPending] at inside
    exact Nat.le_succ_of_le (sound.lapsedBounded ackId inside)

/-- Two timers with one number are one. -/
theorem Sound.eq_of_timeout (sound : provider.Sound) {first second : Nat × Nat}
    (listed : first ∈ provider.timeouts) (other : second ∈ provider.timeouts)
    (same : first.1 = second.1) : first = second :=
  List.inj_on_of_nodup_map sound.distinct listed other same

/-- A pending edit that is acknowledged is given up with its timer. -/
theorem Sound.removed (sound : provider.Sound) {pending : PendingSaveAck Update}
    (listed : pending ∈ provider.pendingSaveAcks) :
    ({ provider with
      timeouts := provider.timeouts.filter fun timeout => pending.timeout ≠ some timeout.1
      pendingSaveAcks := provider.pendingSaveAcks.filter fun other =>
        other.ackId ≠ pending.ackId
      history := provider.history ++ [.acknowledged pending.ackId] } :
        DocumentProvider Update).Sound := by
  have there : ∀ entry ∈ provider.pendingSaveAcks.filter fun other =>
      other.ackId ≠ pending.ackId, entry ∈ provider.pendingSaveAcks :=
    fun _ inside => List.mem_of_mem_filter inside
  constructor
  · simpa [ProviderAct.edit] using sound.numbered
  · intro running
    have distinct : (Kb1Daemon.outstanding provider.history).Nodup :=
      sound.outstanding running ▸ sound.ordered.imp Nat.ne_of_lt
    rw [outstanding_concat]
    change _ = (Kb1Daemon.outstanding provider.history).erase pending.ackId
    rw [distinct.erase_eq_filter, ← sound.outstanding running, List.filter_map]
    refine congrArg _ (List.filter_congr fun entry _ => ?_)
    rw [decide_not, ← beq_eq_decide]
    rfl
  · intro gone
    exact absurd (gone.symm.trans (sound.kept listed)) (by decide)
  · exact sound.ordered.sublist (List.filter_sublist.map _)
  · exact fun entry inside => sound.bounded entry (there entry inside)
  · intro entry inside
    simpa [ProviderAct.lapse] using sound.lapsed entry (there entry inside)
  · intro entry inside
    simpa [ProviderAct.frame] using sound.sent entry (there entry inside)
  · exact fun entry inside => sound.single entry (there entry inside)
  · intro number ackId
    rw [List.mem_filter, decide_eq_true_eq]
    constructor
    · rintro ⟨runs, other⟩
      obtain ⟨entry, inside, rfl, armed⟩ := (sound.timed number ackId).mp runs
      refine ⟨entry, List.mem_filter.mpr ⟨inside, decide_eq_true fun same => ?_⟩, rfl, armed⟩
      exact other (sound.eq_of_ackId inside listed same ▸ armed)
    · rintro ⟨entry, inside, rfl, armed⟩
      obtain ⟨inside, other⟩ := List.mem_filter.mp inside
      have runs := (sound.timed number entry.ackId).mpr ⟨entry, inside, rfl, armed⟩
      refine ⟨runs, fun own => of_decide_eq_true other ?_⟩
      exact (Prod.mk.inj (sound.eq_of_timeout runs
        ((sound.timed number pending.ackId).mpr ⟨pending, listed, rfl, own⟩) rfl)).2
  · exact fun entry inside => sound.fresh entry (List.mem_of_mem_filter inside)
  · exact sound.distinct.sublist (List.filter_sublist.map _)
  · simpa [ProviderAct.frame] using sound.sentBounded
  · simpa [ProviderAct.lapse] using sound.lapsedBounded

/-- What is acknowledged is not pending. -/
theorem Sound.unknown (sound : provider.Sound) {ackId : Nat}
    (missing : ackId ∉ provider.pendingSaveAcks.map PendingSaveAck.ackId) :
    (provider.note (.acknowledged ackId)).Sound := by
  have frames : sentUpdates (provider.note (.acknowledged ackId)).history =
      sentUpdates provider.history :=
    sentUpdates_other rfl
  have lapses : lapsedEdits (provider.note (.acknowledged ackId)).history =
      lapsedEdits provider.history :=
    lapsedEdits_other rfl
  have ids : provider.destroyed = false →
      provider.pendingSaveAcks.map PendingSaveAck.ackId =
        Kb1Daemon.outstanding (provider.note (.acknowledged ackId)).history := by
    intro running
    refine Eq.trans ?_ (outstanding_concat _ _).symm
    change _ = (Kb1Daemon.outstanding provider.history).erase ackId
    rw [← sound.outstanding running, List.erase_of_not_mem missing]
  exact
    { sound with
      numbered := (congrArg _ (editedUpdates_other rfl)).trans sound.numbered
      outstanding := ids
      lapsed := lapses ▸ sound.lapsed
      sent := frames ▸ sound.sent
      sentBounded := frames ▸ sound.sentBounded
      lapsedBounded := lapses ▸ sound.lapsedBounded }

/-- The timer of a pending edit fires. -/
theorem Sound.lapse (sound : provider.Sound) {pending : PendingSaveAck Update} {timeout : Nat}
    (listed : pending ∈ provider.pendingSaveAcks) (armed : pending.timeout = some timeout) :
    ({ provider.modifyPending pending.ackId fun entry =>
        { entry with timedOut := true, timeout := none } with
      timeouts := provider.timeouts.filter fun other => other.1 ≠ timeout
      history := provider.history ++ [.lapsed pending.ackId] } :
        DocumentProvider Update).Sound := by
  have ids := @map_ackId_modify _ provider.pendingSaveAcks pending.ackId
    (fun entry => { entry with timedOut := true, timeout := none }) fun _ => rfl
  have cases := sound.mem_modifyPending listed fun entry =>
    { entry with timedOut := true, timeout := none }
  constructor
  · simpa [modifyPending, ProviderAct.edit] using sound.numbered
  · intro running
    simpa [modifyPending, ids, ProviderAct.follow] using sound.outstanding running
  · intro gone
    exact absurd (gone.symm.trans (sound.kept listed)) (by decide)
  · simpa [modifyPending, ids] using sound.ordered
  · intro entry inside
    rcases (cases entry).mp inside with rfl | ⟨there, _⟩
    · exact sound.bounded pending listed
    · exact sound.bounded entry there
  · intro entry inside
    rcases (cases entry).mp inside with rfl | ⟨there, other⟩
    · simp [ProviderAct.lapse]
    · simpa [ProviderAct.lapse, other] using sound.lapsed entry there
  · intro entry inside
    rcases (cases entry).mp inside with rfl | ⟨there, _⟩
    · have sent := (sound.sent pending listed).mp (.inl (armed ▸ rfl))
      simpa [ProviderAct.frame] using sent
    · simpa [ProviderAct.frame] using sound.sent entry there
  · intro entry inside fired
    rcases (cases entry).mp inside with rfl | ⟨there, _⟩
    · rfl
    · exact sound.single entry there fired
  · intro number ackId
    rw [List.mem_filter, decide_eq_true_eq]
    constructor
    · rintro ⟨runs, other⟩
      obtain ⟨entry, inside, rfl, own⟩ := (sound.timed number ackId).mp runs
      refine ⟨entry, (cases entry).mpr (.inr ⟨inside, fun same => ?_⟩), rfl, own⟩
      rw [sound.eq_of_ackId inside listed same, armed] at own
      exact other (Option.some.inj own).symm
    · rintro ⟨entry, inside, rfl, own⟩
      rcases (cases entry).mp inside with rfl | ⟨there, other⟩
      · cases own
      · have runs := (sound.timed number entry.ackId).mpr ⟨entry, there, rfl, own⟩
        refine ⟨runs, fun same => other ?_⟩
        exact (Prod.mk.inj (sound.eq_of_timeout runs
          ((sound.timed timeout pending.ackId).mpr ⟨pending, listed, rfl, armed⟩) same)).2
  · exact fun entry inside => sound.fresh entry (List.mem_of_mem_filter inside)
  · exact sound.distinct.sublist (List.filter_sublist.map _)
  · simpa [modifyPending, ProviderAct.frame] using sound.sentBounded
  · intro ackId inside
    rw [lapsedEdits_concat, List.mem_append] at inside
    rcases inside with there | added
    · exact sound.lapsedBounded ackId there
    · rw [List.mem_singleton.mp added]
      exact sound.bounded pending listed

end DocumentProvider

end Kb1Daemon
