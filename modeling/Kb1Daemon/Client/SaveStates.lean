import Kb1Daemon.Client.DocumentProvider

/-! # The save states of the document provider

What the provider reports last is exact (`save_state_exact`): nothing is outstanding, or an
outstanding edit has lapsed, or that many edits are outstanding. Edits are sent once and in their
order (`updates_in_order`), and a timer is set for exactly those that were sent and have neither
been acknowledged nor lapsed (`timeouts_exact`).
-/

namespace Kb1Daemon

namespace DocumentProvider

variable {Update : Type} {provider next : DocumentProvider Update}

/-- What the state reports is the last report, and is exact while the provider is kept. -/
structure Told (provider : DocumentProvider Update) : Prop where
  told : lastReport provider.history = provider.latestSaveState
  exact : provider.destroyed = false →
    provider.latestSaveState = saveStateOf provider.pendingSaveAcks

/-- Edits are sent in their order: none before the socket opens, all while it is open. -/
structure InOrder (provider : DocumentProvider Update) : Prop where
  front : sentUpdates provider.history <+: editedUpdates provider.history
  waiting : provider.readyState = .connecting →
    sentUpdates provider.history = [] ∧
      provider.pendingSaveAcks.map (fun pending => (pending.ackId, pending.update)) =
        editedUpdates provider.history
  up : provider.readyState = .opened →
    sentUpdates provider.history = editedUpdates provider.history
  gone : provider.destroyed = true →
    provider.readyState = .closing ∨ provider.readyState = .closed

structure Tracks (provider : DocumentProvider Update) : Prop where
  sound : provider.Sound
  told : provider.Told
  inOrder : provider.InOrder

theorem told_publishSaveState (provider : DocumentProvider Update) :
    provider.publishSaveState.Told where
  told := lastReport_concat
  exact := fun _ => rfl

theorem quiet_status (status : ProviderStatus) : Quiet (.status status : ProviderAct Update) :=
  ⟨rfl, rfl, rfl, fun _ => rfl⟩

theorem quiet_sync : Quiet (.sync : ProviderAct Update) := ⟨rfl, rfl, rfl, fun _ => rfl⟩

/-- A state that is given by whether each edit has timed out. -/
theorem saveStateOf_congr {first second : List (PendingSaveAck Update)}
    (same : first.map PendingSaveAck.timedOut = second.map PendingSaveAck.timedOut) :
    saveStateOf first = saveStateOf second := by
  have shape : ∀ pending : List (PendingSaveAck Update), saveStateOf pending =
      if (pending.map PendingSaveAck.timedOut).isEmpty then .saved
      else if (pending.map PendingSaveAck.timedOut).any fun timedOut => timedOut then
        .failed (pending.map PendingSaveAck.timedOut).length unconfirmedMessage
      else .saving (pending.map PendingSaveAck.timedOut).length := by
    intro pending
    rw [List.isEmpty_map, List.any_map, List.length_map]
    rfl
  rw [shape, shape, same]

/-- What is left of the pending edits is sent one after the other. -/
theorem Sound.drain {rest : List (PendingSaveAck Update)} (sound : provider.Sound)
    (up : provider.readyState = .opened) (kept : provider.destroyed = false)
    (listed : ∀ pending ∈ rest, pending ∈ provider.pendingSaveAcks)
    (unsent : ∀ pending ∈ rest, pending.ackId ∉ (sentUpdates provider.history).map Prod.fst)
    (distinct : (rest.map PendingSaveAck.ackId).Nodup) :
    (rest.foldl sendAckedUpdate provider).Sound ∧
      (rest.foldl sendAckedUpdate provider).readyState = .opened ∧
      (rest.foldl sendAckedUpdate provider).destroyed = false ∧
      (rest.foldl sendAckedUpdate provider).latestSaveState = provider.latestSaveState ∧
      (rest.foldl sendAckedUpdate provider).pendingSaveAcks.map PendingSaveAck.timedOut =
        provider.pendingSaveAcks.map PendingSaveAck.timedOut ∧
      (rest.foldl sendAckedUpdate provider).history =
        provider.history ++ rest.map fun pending => .sent pending.ackId pending.update := by
  induction rest generalizing provider with
  | nil => exact ⟨sound, up, kept, rfl, rfl, (List.append_nil _).symm⟩
  | cons pending rest ih =>
      obtain ⟨own, others⟩ := List.forall_mem_cons.mp listed
      obtain ⟨fresh, later⟩ := List.forall_mem_cons.mp unsent
      rw [List.map_cons, List.nodup_cons] at distinct
      have different : ∀ other ∈ rest, other.ackId ≠ pending.ackId := by
        intro other inside same
        exact distinct.1 (same ▸ List.mem_map_of_mem inside)
      have next := sendAckedUpdate_eq sound up kept own fresh
      have state : (provider.sendAckedUpdate pending).history =
          provider.history ++ [.sent pending.ackId pending.update] := by
        rw [next]
      obtain ⟨kept', up', running, latest, fired, history⟩ := @ih (provider.sendAckedUpdate pending)
        (sound.send up kept own fresh) (by rw [next]; exact up) (by rw [next]; exact kept)
        (by
          intro other inside
          rw [next]
          exact (sound.mem_modifyPending own _ other).mpr
            (.inr ⟨others other inside, different other inside⟩))
        (by
          intro other inside
          rw [state, sentUpdates_concat, List.map_append, List.mem_append, not_or]
          exact ⟨later other inside, fun same =>
            different other inside (List.mem_singleton.mp same)⟩)
        distinct.2
      rw [List.foldl_cons]
      refine ⟨kept', up', running, latest.trans (by rw [next]; rfl), fired.trans ?_,
        history.trans ?_⟩
      · rw [next]
        refine (List.map_map ..).trans (List.map_congr_left fun entry _ => ?_)
        rw [Function.comp_apply]
        split <;> rfl
      · rw [state, List.map_cons, List.append_assoc]
        rfl

theorem filterMap_sent (pending : List (PendingSaveAck Update)) :
    (pending.map fun entry => ProviderAct.sent entry.ackId entry.update).filterMap
        ProviderAct.edit = [] ∧
      (pending.map fun entry => ProviderAct.sent entry.ackId entry.update).filterMap
          ProviderAct.frame = pending.map (fun entry => (entry.ackId, entry.update)) ∧
        (pending.map fun entry => ProviderAct.sent entry.ackId entry.update).filterMap
          ProviderAct.report = [] := by
  refine ⟨?_, ?_, ?_⟩
  · rw [List.filterMap_map, List.filterMap_eq_nil_iff]
    exact fun _ _ => rfl
  · rw [List.filterMap_map]
    exact congrFun List.filterMap_eq_map' pending
  · rw [List.filterMap_map, List.filterMap_eq_nil_iff]
    exact fun _ _ => rfl

theorem Tracks.opened (tracks : provider.Tracks) (connecting : provider.readyState = .connecting) :
    provider.opened.Tracks := by
  obtain ⟨sound, told, inOrder⟩ := tracks
  obtain ⟨unsent, all⟩ := inOrder.waiting connecting
  have kept : provider.destroyed = false := by
    by_contra gone
    rw [Bool.not_eq_false] at gone
    rcases inOrder.gone gone with left | left <;>
      exact absurd (connecting.symm.trans left) (by decide)
  have begun := ((sound.become .opened).quiet (quiet_status .syncing)).quiet quiet_sync
  have edits : editedUpdates (provider.history ++ [.status .syncing] ++ [.sync]) =
      editedUpdates provider.history :=
    (editedUpdates_other rfl).trans (editedUpdates_other rfl)
  have frames : sentUpdates (provider.history ++ [.status .syncing] ++ [.sync]) = [] :=
    ((sentUpdates_other rfl).trans (sentUpdates_other rfl)).trans unsent
  obtain ⟨drained, up, running, latest, fired, history⟩ := @Sound.drain _ _
    provider.pendingSaveAcks begun rfl kept (fun _ inside => inside)
    (fun pending _ => by
      change _ ∉ (sentUpdates (provider.history ++ [.status .syncing] ++ [.sync])).map Prod.fst
      rw [frames]
      exact List.not_mem_nil)
    (sound.ordered.imp Nat.ne_of_lt)
  change provider.opened.history = provider.history ++ [.status .syncing] ++ [.sync] ++ _ at history
  change provider.opened.pendingSaveAcks.map _ = _ at fired
  obtain ⟨noEdits, allFrames, noReports⟩ := filterMap_sent provider.pendingSaveAcks
  have everyEdit : editedUpdates provider.opened.history = editedUpdates provider.history := by
    rw [history, editedUpdates, List.filterMap_append, noEdits, List.append_nil]
    exact edits
  have everyFrame : sentUpdates provider.opened.history = editedUpdates provider.history := by
    rw [history, sentUpdates, List.filterMap_append, allFrames, all]
    change sentUpdates (provider.history ++ [.status .syncing] ++ [.sync]) ++ _ = _
    rw [frames, List.nil_append]
  have report : lastReport provider.opened.history = lastReport provider.history := by
    rw [history, lastReport, List.filterMap_append, noReports, List.append_nil]
    change lastReport (provider.history ++ [.status .syncing] ++ [.sync]) = _
    rw [lastReport_concat, lastReport_concat]
    rfl
  refine ⟨drained, ⟨report.trans (told.told.trans latest.symm), fun _ => ?_⟩, ?_⟩
  · exact latest.trans ((told.exact kept).trans (saveStateOf_congr fired).symm)
  · have same := everyFrame.trans everyEdit.symm
    exact
      { front := ⟨[], (List.append_nil _).trans same⟩
        waiting := fun idle => absurd (up.symm.trans idle) (by decide)
        up := fun _ => same
        gone := fun left => absurd (running.symm.trans left) (by decide) }

/-- A quiet act leaves the edits in order. -/
theorem InOrder.quiet (inOrder : provider.InOrder) {act : ProviderAct Update}
    (quiet : Quiet act) : (provider.note act).InOrder := by
  obtain ⟨edits, frames, _, _⟩ := @quiet.history _ provider
  refine ⟨?_, fun idle => ?_, fun up => ?_, inOrder.gone⟩
  · rw [edits, frames]
    exact inOrder.front
  · rw [edits, frames]
    exact inOrder.waiting idle
  · rw [edits, frames]
    exact inOrder.up up

/-- A report leaves the edits in order. -/
theorem InOrder.report (inOrder : provider.InOrder) (state : SaveState) :
    ({ provider with latestSaveState := state } : DocumentProvider Update).InOrder :=
  { inOrder with }

/-- A quiet act without a report. -/
theorem Tracks.quiet (tracks : provider.Tracks) {act : ProviderAct Update} (quiet : Quiet act)
    (silent : act.report = none) : (provider.note act).Tracks where
  sound := tracks.sound.quiet quiet
  told := by
    refine ⟨?_, tracks.told.exact⟩
    exact lastReport_concat.trans (by rw [silent]; exact tracks.told.told)
  inOrder := tracks.inOrder.quiet quiet

/-- Publishing makes a sound state told. -/
theorem Sound.published (sound : provider.Sound) (inOrder : provider.InOrder) :
    provider.publishSaveState.Tracks where
  sound := (sound.report _).quiet ⟨rfl, rfl, rfl, fun _ => rfl⟩
  told := told_publishSaveState provider
  inOrder := (inOrder.report _).quiet ⟨rfl, rfl, rfl, fun _ => rfl⟩

/-- A local edit is tracked. -/
theorem Tracks.tracked (tracks : provider.Tracks) (kept : provider.destroyed = false)
    (update : Update) : (provider.trackLocalUpdate update).Tracks := by
  obtain ⟨sound, _, inOrder⟩ := tracks
  have added := sound.added kept update
  unfold trackLocalUpdate
  by_cases up : provider.readyState = .opened
  · have listed : provider.nextPending update ∈ (provider.addPending update).pendingSaveAcks :=
      List.mem_append_right _ (List.mem_singleton_self _)
    have unsent : (provider.nextPending update).ackId ∉
        (sentUpdates (provider.addPending update).history).map Prod.fst := by
      rw [sentUpdates_addPending]
      exact sound.next_unsent
    refine (added.send up kept listed unsent).published ?_
    rw [sendAckedUpdate_eq added up kept listed unsent]
    have same : sentUpdates ((provider.addPending update).history ++
          [.sent (provider.nextSaveAckSeq + 1) update]) =
        editedUpdates ((provider.addPending update).history ++
          [.sent (provider.nextSaveAckSeq + 1) update]) := by
      rw [sentUpdates_concat, sentUpdates_addPending, inOrder.up up, editedUpdates_concat,
        editedUpdates_addPending]
      exact (List.append_nil _).symm
    refine ⟨?_, fun idle => absurd (up.symm.trans idle) (by decide), fun _ => same, inOrder.gone⟩
    exact ⟨[], (List.append_nil _).trans same⟩
  · have idle : (provider.addPending update).sendAckedUpdate (provider.nextPending update) =
        provider.addPending update := if_pos up
    rw [idle]
    refine added.published ⟨?_, fun connecting => ?_, fun opened => absurd opened up,
      inOrder.gone⟩
    · rw [editedUpdates_addPending, sentUpdates_addPending]
      exact inOrder.front.trans (List.prefix_append _ _)
    · obtain ⟨unsent, all⟩ := inOrder.waiting connecting
      rw [editedUpdates_addPending, sentUpdates_addPending, ← all]
      exact ⟨unsent, List.map_append⟩

/-- While the socket is open everything is sent. -/
theorem InOrder.of_up (inOrder : provider.InOrder) (up : provider.readyState = .opened)
    (same : next.readyState = provider.readyState) (gone : next.destroyed = provider.destroyed)
    (edits : editedUpdates next.history = editedUpdates provider.history)
    (frames : sentUpdates next.history = sentUpdates provider.history) : next.InOrder := by
  refine ⟨?_, fun idle => ?_, fun _ => ?_, fun left => ?_⟩
  · rw [edits, frames]
    exact inOrder.front
  · rw [same, up] at idle
    cases idle
  · rw [edits, frames]
    exact inOrder.up up
  · rw [same]
    exact inOrder.gone (gone ▸ left)

theorem Tracks.acknowledge (tracks : provider.Tracks) (up : provider.readyState = .opened)
    (ackId : Nat) : ((provider.note (.acknowledged ackId)).acknowledgeSave ackId).Tracks := by
  obtain ⟨sound, told, inOrder⟩ := tracks
  have edits : editedUpdates (provider.history ++ [.acknowledged ackId]) =
      editedUpdates provider.history :=
    editedUpdates_other rfl
  have frames : sentUpdates (provider.history ++ [.acknowledged ackId]) =
      sentUpdates provider.history :=
    sentUpdates_other rfl
  unfold acknowledgeSave
  split
  · rename_i unknown
    have missing : ackId ∉ provider.pendingSaveAcks.map PendingSaveAck.ackId := by
      intro inside
      obtain ⟨entry, there, same⟩ := List.mem_map.mp inside
      exact List.find?_eq_none.mp unknown entry there (decide_eq_true same)
    exact ⟨sound.unknown missing, ⟨lastReport_concat.trans told.told, told.exact⟩,
      inOrder.of_up up rfl rfl edits frames⟩
  · rename_i pending known
    have same : pending.ackId = ackId := by simpa using List.find?_some known
    subst same
    refine (sound.removed (List.mem_of_find?_eq_some known)).published ?_
    exact inOrder.of_up up rfl rfl edits frames

/-- A timeout marks its edit as overdue. -/
theorem Tracks.lapse (tracks : provider.Tracks) {timeout ackId : Nat}
    (listed : (timeout, ackId) ∈ provider.timeouts) : (provider.lapse timeout ackId).Tracks := by
  obtain ⟨sound, _, inOrder⟩ := tracks
  obtain ⟨pending, inside, rfl, armed⟩ := (sound.timed timeout ackId).mp listed
  have kept := sound.kept inside
  have known : (provider.pendingSaveAcks.find? fun other =>
      other.ackId = pending.ackId).isNone = false := by
    rw [Option.isNone_eq_false_iff, List.find?_isSome]
    exact ⟨pending, inside, decide_eq_true rfl⟩
  have edits : editedUpdates (provider.history ++ [.lapsed pending.ackId]) =
      editedUpdates provider.history :=
    editedUpdates_other rfl
  have frames : sentUpdates (provider.history ++ [.lapsed pending.ackId]) =
      sentUpdates provider.history :=
    sentUpdates_other rfl
  have alive : ¬((provider.pendingSaveAcks.find? fun other =>
      other.ackId = pending.ackId).isNone || provider.destroyed) = true := by
    rw [known, kept]
    decide
  unfold DocumentProvider.lapse
  dsimp only
  rw [if_neg alive]
  refine (sound.lapse inside armed).published ⟨?_, fun connecting => ?_, fun up => ?_, inOrder.gone⟩
  · change sentUpdates (_ ++ [_]) <+: editedUpdates (_ ++ [_])
    rw [edits, frames]
    exact inOrder.front
  · have sent := (sound.sent pending inside).mp (.inl (armed ▸ rfl))
    rw [(inOrder.waiting connecting).1] at sent
    exact absurd sent List.not_mem_nil
  · change sentUpdates (_ ++ [_]) = editedUpdates (_ ++ [_])
    rw [edits, frames]
    exact inOrder.up up

/-- The socket is left. -/
theorem Tracks.leave (tracks : provider.Tracks) {state : ReadyState}
    (left : state = .closing ∨ state = .closed) :
    ({ provider with readyState := state } : DocumentProvider Update).Tracks where
  sound := tracks.sound.become state
  told := { tracks.told with }
  inOrder := by
    refine ⟨tracks.inOrder.front, fun idle => ?_, fun up => ?_, fun _ => left⟩
    · change state = .connecting at idle
      subst idle
      rcases left with left | left <;> cases left
    · change state = .opened at up
      subst up
      rcases left with left | left <;> cases left

theorem leaving_left (state : ReadyState) : leaving state = .closing ∨ leaving state = .closed := by
  cases state <;> decide

theorem Tracks.destroy (tracks : provider.Tracks) : provider.destroy.Tracks := by
  obtain ⟨sound, told, inOrder⟩ := tracks
  have idle : (provider.timeouts.filter fun timeout =>
      provider.pendingSaveAcks.all fun pending => pending.timeout ≠ some timeout.1) = [] := by
    refine List.filter_eq_nil_iff.mpr fun timeout inside all => ?_
    obtain ⟨pending, listed, _, armed⟩ := (sound.timed timeout.1 timeout.2).mp inside
    exact of_decide_eq_true (List.all_eq_true.mp all pending listed) armed
  have left := leaving_left provider.readyState
  have ended : ({ provider with
      destroyed := true
      pendingSaveAcks := []
      timeouts := []
      readyState := leaving provider.readyState } : DocumentProvider Update).Tracks := by
    refine ⟨?_, ⟨told.told, fun kept => Bool.noConfusion kept⟩, ?_⟩
    · exact
        { numbered := sound.numbered
          outstanding := fun kept => Bool.noConfusion kept
          ended := fun _ => rfl
          ordered := .nil
          bounded := List.forall_mem_nil _
          lapsed := List.forall_mem_nil _
          sent := List.forall_mem_nil _
          single := List.forall_mem_nil _
          timed := fun _ _ => by simp only [List.not_mem_nil, false_and, exists_false]
          fresh := List.forall_mem_nil _
          distinct := .nil
          sentBounded := sound.sentBounded
          lapsedBounded := sound.lapsedBounded }
    · refine ⟨inOrder.front, fun idle => ?_, fun up => ?_, fun _ => left⟩
      · change leaving provider.readyState = .connecting at idle
        rw [idle] at left
        rcases left with left | left <;> cases left
      · change leaving provider.readyState = .opened at up
        rw [up] at left
        rcases left with left | left <;> cases left
  unfold DocumentProvider.destroy
  rw [idle]
  exact (ended.quiet (quiet_status .closed) rfl).quiet ⟨rfl, rfl, rfl, fun _ => rfl⟩ rfl

theorem tracks_new : (createLocalDocumentProvider : DocumentProvider Update).Tracks where
  sound := sound_new
  told := ⟨rfl, fun _ => rfl⟩
  inOrder := ⟨List.prefix_rfl, fun _ => ⟨rfl, rfl⟩, fun _ => rfl, fun gone => by cases gone⟩

theorem Tracks.closed (tracks : provider.Tracks) (openFailure : Bool) :
    (provider.socketClosed openFailure).Tracks := by
  have left := (tracks.leave (.inr rfl)).quiet (quiet_status .closed) rfl
  unfold socketClosed
  dsimp only
  split
  · exact left.quiet ⟨rfl, rfl, rfl, fun _ => rfl⟩ rfl
  · exact left

/-- Every step keeps track. -/
theorem Tracks.step (tracks : provider.Tracks) {label : ProviderLabel Update}
    (stepped : documentProvider.step provider label = some next) : next.Tracks := by
  cases label with
  | opened =>
      obtain ⟨connecting, same⟩ := Option.ite_none_right_eq_some.mp stepped
      cases same
      exact tracks.opened connecting
  | updated update remote =>
      cases stepped
      unfold updateHandler
      split
      · exact tracks
      · rename_i own
        rw [Bool.or_eq_true, not_or, Bool.not_eq_true, Bool.not_eq_true] at own
        exact tracks.tracked own.2 update
  | acknowledged ackId =>
      obtain ⟨up, same⟩ := Option.ite_none_right_eq_some.mp stepped
      cases same
      exact tracks.acknowledge up ackId
  | synced =>
      obtain ⟨_, same⟩ := Option.ite_none_right_eq_some.mp stepped
      cases same
      exact (tracks.quiet (quiet_status .opened) rfl).quiet ⟨rfl, rfl, rfl, fun _ => rfl⟩ rfl
  | sync replies =>
      obtain ⟨_, same⟩ := Option.ite_none_right_eq_some.mp stepped
      cases same
      split
      · exact tracks.quiet quiet_sync rfl
      · exact tracks
  | sessionEvent decoded =>
      obtain ⟨_, same⟩ := Option.ite_none_right_eq_some.mp stepped
      cases same
      split
      · exact tracks.quiet ⟨rfl, rfl, rfl, fun _ => rfl⟩ rfl
      · exact tracks
  | ignored =>
      obtain ⟨_, same⟩ := Option.ite_none_right_eq_some.mp stepped
      cases same
      exact tracks
  | garbled =>
      obtain ⟨_, same⟩ := Option.ite_none_right_eq_some.mp stepped
      cases same
      exact tracks.quiet ⟨rfl, rfl, rfl, fun _ => rfl⟩ rfl
  | failed =>
      cases stepped
      exact (tracks.quiet (quiet_status .error) rfl).quiet ⟨rfl, rfl, rfl, fun _ => rfl⟩ rfl
  | closing =>
      obtain ⟨_, same⟩ := Option.ite_none_right_eq_some.mp stepped
      cases same
      exact tracks.leave (.inl rfl)
  | closed openFailure =>
      obtain ⟨_, same⟩ := Option.ite_none_left_eq_some.mp stepped
      cases same
      exact tracks.closed openFailure
  | lapsed timeout =>
      obtain ⟨entry, found, rfl⟩ := Option.map_eq_some_iff.mp stepped
      have same : entry.1 = timeout := by simpa using List.find?_some found
      subst same
      exact tracks.lapse (List.mem_of_find?_eq_some found)
  | destroy =>
      cases stepped
      exact tracks.destroy

variable {labels : List (ProviderLabel Update)} {target : DocumentProvider Update}

theorem Tracks.run (run : documentProvider.Run (fun _ _ => True) createLocalDocumentProvider
    labels target) : target.Tracks :=
  run.invariant (fun _ _ _ _ stepped tracks => tracks.step stepped) tracks_new

/-- What is reported of outstanding edits when some have lapsed. -/
def exactState (outstanding lapsed : List Nat) : SaveState :=
  if outstanding = [] then .saved
  else if ∃ ackId ∈ outstanding, ackId ∈ lapsed then
    .failed outstanding.length unconfirmedMessage
  else .saving outstanding.length

theorem Sound.saveStateOf_eq (sound : provider.Sound) (kept : provider.destroyed = false) :
    saveStateOf provider.pendingSaveAcks =
      exactState (Kb1Daemon.outstanding provider.history) (lapsedEdits provider.history) := by
  have lapsed : (∃ ackId ∈ provider.pendingSaveAcks.map PendingSaveAck.ackId,
      ackId ∈ lapsedEdits provider.history) ↔
        provider.pendingSaveAcks.any PendingSaveAck.timedOut = true := by
    simp only [List.mem_map, exists_exists_and_eq_and, List.any_eq_true]
    exact exists_congr fun pending => and_congr_right fun listed =>
      (sound.lapsed pending listed).symm
  unfold saveStateOf exactState
  simp only [← sound.outstanding kept, lapsed, List.map_eq_nil_iff, List.length_map,
    List.isEmpty_iff]

/-- What is told at the end is what was reported last. -/
theorem Tracks.saveStateOnDestroy (tracks : provider.Tracks) :
    provider.saveStateOnDestroy = provider.latestSaveState := by
  unfold DocumentProvider.saveStateOnDestroy
  by_cases idle : provider.pendingSaveAcks = []
  · rw [idle]
    rfl
  · rw [if_neg (mt List.isEmpty_iff.mp idle)]
    obtain ⟨_, listed⟩ := List.exists_mem_of_ne_nil _ idle
    have kept := tracks.sound.kept listed
    have latest := tracks.told.exact kept
    rw [saveStateOf, if_neg (mt List.isEmpty_iff.mp idle)] at latest
    by_cases lapsed : provider.pendingSaveAcks.any PendingSaveAck.timedOut = true
    · rw [if_pos lapsed] at latest
      rw [latest]
    · rw [if_neg lapsed] at latest
      rw [latest]

/-- What the labels say of the local edits: whether the provider is destroyed, the edits made before,
and the numbers of those that have not been acknowledged since. -/
structure Books (Update : Type) where
  destroyed : Bool
  edits : List Update
  waiting : List Nat

def Books.new : Books Update := ⟨false, [], []⟩

def Books.add (books : Books Update) : ProviderLabel Update → Books Update
  | .updated update false =>
      if books.destroyed then books
      else { books with
        edits := books.edits ++ [update]
        waiting := books.waiting ++ [books.edits.length + 1] }
  | .acknowledged ackId => { books with waiting := books.waiting.erase ackId }
  | .destroy => { books with destroyed := true }
  | _ => books

def books (provider : DocumentProvider Update) : Books Update :=
  ⟨provider.destroyed, (editedUpdates provider.history).map Prod.snd,
    Kb1Daemon.outstanding provider.history⟩

section Steps

theorem books_note {act : ProviderAct Update} (edit : act.edit = none)
    (follow : ∀ ids, act.follow ids = ids) : (provider.note act).books = provider.books := by
  rw [books, note, editedUpdates_other edit, outstanding_concat, follow]
  rfl

/-- An act that is quiet is not in the books. -/
theorem Quiet.books {act : ProviderAct Update} (quiet : Quiet act) :
    (provider.note act).books = provider.books :=
  books_note quiet.1 quiet.2.2.2

theorem books_publishSaveState : provider.publishSaveState.books = provider.books :=
  @books_note _ { provider with latestSaveState := saveStateOf provider.pendingSaveAcks } _ rfl
    fun _ => rfl

theorem books_sendAckedUpdate (pending : PendingSaveAck Update) :
    (provider.sendAckedUpdate pending).books = provider.books := by
  unfold sendAckedUpdate
  split
  · rfl
  · refine Eq.trans ?_ (@books_note _ _ (.sent pending.ackId pending.update) rfl fun _ => rfl)
    unfold armSaveAckTimeout
    split <;> rfl

theorem books_drain (rest : List (PendingSaveAck Update)) :
    (rest.foldl sendAckedUpdate provider).books = provider.books := by
  induction rest generalizing provider with
  | nil => rfl
  | cons pending rest ih => exact ih.trans (books_sendAckedUpdate pending)

theorem books_acknowledgeSave (ackId : Nat) :
    ((provider.note (.acknowledged ackId)).acknowledgeSave ackId).books =
      provider.books.add (.acknowledged ackId) := by
  have noted : (provider.note (.acknowledged ackId)).books =
      provider.books.add (.acknowledged ackId) := by
    rw [books, note, editedUpdates_other rfl, outstanding_concat]
    rfl
  unfold acknowledgeSave
  split
  · exact noted
  · exact books_publishSaveState.trans noted

theorem books_trackLocalUpdate (sound : provider.Sound) (kept : provider.destroyed = false)
    (update : Update) :
    (provider.trackLocalUpdate update).books = provider.books.add (.updated update false) := by
  have number := congrArg List.length sound.numbered
  rw [List.length_map, List.length_range'] at number
  refine (books_publishSaveState.trans (books_sendAckedUpdate _)).trans ?_
  have open_ : provider.books.destroyed ≠ true := by
    rw [books, kept]
    exact Bool.false_ne_true
  rw [Books.add, if_neg open_]
  unfold books
  rw [editedUpdates_addPending, List.map_append, List.length_map, number]
  dsimp only [addPending]
  rw [outstanding_concat]
  rfl

theorem books_lapse (timeout ackId : Nat) :
    (provider.lapse timeout ackId).books = provider.books := by
  have noted := @books_note _ provider (.lapsed ackId) rfl fun _ => rfl
  unfold DocumentProvider.lapse
  dsimp only
  split
  · exact noted
  · exact books_publishSaveState.trans noted

/-- Each step is in the books as its label. -/
theorem books_step (sound : provider.Sound) {label : ProviderLabel Update}
    (stepped : documentProvider.step provider label = some next) :
    next.books = provider.books.add label := by
  cases label with
  | opened =>
      obtain ⟨_, same⟩ := Option.ite_none_right_eq_some.mp stepped
      cases same
      exact (books_drain _).trans (quiet_sync.books.trans (quiet_status .syncing).books)
  | updated update remote =>
      cases stepped
      unfold updateHandler
      cases remote with
      | true => rfl
      | false =>
          rw [Bool.false_or]
          by_cases gone : provider.destroyed = true
          · rw [if_pos gone]
            exact (if_pos gone).symm
          · rw [if_neg gone]
            exact books_trackLocalUpdate sound (Bool.eq_false_iff.mpr gone) update
  | acknowledged ackId =>
      obtain ⟨_, same⟩ := Option.ite_none_right_eq_some.mp stepped
      cases same
      exact books_acknowledgeSave ackId
  | synced =>
      obtain ⟨_, same⟩ := Option.ite_none_right_eq_some.mp stepped
      cases same
      exact (books_note rfl fun _ => rfl).trans (quiet_status .opened).books
  | sync replies =>
      obtain ⟨_, same⟩ := Option.ite_none_right_eq_some.mp stepped
      cases same
      split
      · exact quiet_sync.books
      · rfl
  | sessionEvent decoded =>
      obtain ⟨_, same⟩ := Option.ite_none_right_eq_some.mp stepped
      cases same
      split
      · exact books_note rfl fun _ => rfl
      · rfl
  | ignored =>
      obtain ⟨_, same⟩ := Option.ite_none_right_eq_some.mp stepped
      cases same
      rfl
  | garbled =>
      obtain ⟨_, same⟩ := Option.ite_none_right_eq_some.mp stepped
      cases same
      exact books_note rfl fun _ => rfl
  | failed =>
      cases stepped
      exact (books_note rfl fun _ => rfl).trans (quiet_status .error).books
  | closing =>
      obtain ⟨_, same⟩ := Option.ite_none_right_eq_some.mp stepped
      cases same
      rfl
  | closed openFailure =>
      obtain ⟨_, same⟩ := Option.ite_none_left_eq_some.mp stepped
      cases same
      unfold socketClosed
      dsimp only
      split
      · exact (books_note rfl fun _ => rfl).trans (quiet_status .closed).books
      · exact (quiet_status .closed).books
  | lapsed timeout =>
      obtain ⟨entry, _, rfl⟩ := Option.map_eq_some_iff.mp stepped
      exact books_lapse timeout entry.2
  | destroy =>
      cases stepped
      exact (books_note rfl fun _ => rfl).trans (quiet_status .closed).books

/-- What a run notes of the edits is what its labels say of them. -/
theorem books_run (run : documentProvider.Run (fun _ _ => True) createLocalDocumentProvider labels
    target) : target.books = labels.foldl Books.add .new := by
  have keep : ∀ (provider : DocumentProvider Update) label next, True →
      documentProvider.step provider label = some next → provider.Tracks → next.Tracks :=
    fun _ _ _ _ stepped tracks => tracks.step stepped
  have follow : ∀ (provider : DocumentProvider Update) label next, True →
      documentProvider.step provider label = some next → provider.Tracks →
        next.books = provider.books.add label :=
    fun _ _ _ _ stepped tracks => books_step tracks.sound stepped
  exact run.foldl_eq keep follow tracks_new

end Steps

/-- **Save states.** In every run, as long as the provider is kept, its last report is exact:
nothing is outstanding, or an outstanding edit has lapsed, or none has; and what the provider tells
when it is destroyed is its last report. -/
theorem save_state_exact (run : documentProvider.Run (fun _ _ => True)
    createLocalDocumentProvider labels target) :
    (target.destroyed = false → lastReport target.history =
      exactState (labels.foldl Books.add .new).waiting (lapsedEdits target.history)) ∧
      target.saveStateOnDestroy = lastReport target.history := by
  have tracks := Tracks.run run
  refine ⟨fun kept => ?_, tracks.saveStateOnDestroy.trans tracks.told.told.symm⟩
  rw [tracks.told.told, tracks.told.exact kept, ← books_run run]
  exact tracks.sound.saveStateOf_eq kept

/-- An edit that lapses and is acknowledged late, before another. -/
theorem save_state_exact_late : ∃ target : DocumentProvider Nat,
    documentProvider.Run (fun _ _ => True) createLocalDocumentProvider
      [.opened, .updated 7 false, .updated 8 false, .lapsed 0, .acknowledged 1] target ∧
    lastReport target.history = .saving 1 ∧ target.saveStateOnDestroy = .saving 1 := by
  obtain ⟨target, run, seen⟩ : ∃ target : DocumentProvider Nat,
      documentProvider.Run (fun _ _ => True) createLocalDocumentProvider
        [.opened, .updated 7 false, .updated 8 false, .lapsed 0, .acknowledged 1] target ∧
      (target.destroyed, lapsedEdits target.history) = (false, [1]) :=
    Machine.evaluate_view (by decide)
  obtain ⟨kept, lapsed⟩ := Prod.mk.inj seen
  obtain ⟨report, final⟩ := save_state_exact run
  have state := report kept
  rw [lapsed] at state
  exact ⟨target, run, state, final.trans state⟩

/-- **Edits in order.** In every run the local edits made before the provider is destroyed are
numbered from one, each is sent at most once and in their order, and all are sent while the socket
is open. -/
theorem updates_in_order (run : documentProvider.Run (fun _ _ => True)
    createLocalDocumentProvider labels target) :
    editedUpdates target.history =
        (List.range' 1 (labels.foldl Books.add .new).edits.length).zip
          (labels.foldl Books.add .new).edits ∧
      sentUpdates target.history <+: editedUpdates target.history ∧
      (target.readyState = .opened →
        sentUpdates target.history = editedUpdates target.history) := by
  have tracks := Tracks.run run
  refine ⟨?_, tracks.inOrder.front, tracks.inOrder.up⟩
  have numbered := tracks.sound.numbered
  have length := congrArg List.length numbered
  rw [List.length_map, List.length_range'] at length
  rw [← books_run run]
  refine List.zip_of_prod (numbered.trans ?_) rfl
  rw [books, List.length_map, length]

/-- An edit before the socket opens, one of the peer and one after. -/
theorem updates_in_order_early : ∃ target : DocumentProvider Nat,
    documentProvider.Run (fun _ _ => True) createLocalDocumentProvider
      [.updated 7 false, .opened, .updated 9 true, .updated 8 false] target ∧
    sentUpdates target.history = [(1, 7), (2, 8)] := by
  obtain ⟨target, run, up⟩ : ∃ target : DocumentProvider Nat,
      documentProvider.Run (fun _ _ => True) createLocalDocumentProvider
        [.updated 7 false, .opened, .updated 9 true, .updated 8 false] target ∧
      target.readyState = .opened := Machine.evaluate_view (by decide)
  obtain ⟨edits, _, sent⟩ := updates_in_order run
  exact ⟨target, run, (sent up).trans edits⟩

/-- **Timers of edits.** In every run a timer is set for an edit exactly when the provider is kept
and the edit is outstanding, was sent and has not lapsed, and no edit has two. -/
theorem timeouts_exact (run : documentProvider.Run (fun _ _ => True)
    createLocalDocumentProvider labels target) :
    (∀ ackId, ackId ∈ target.timeouts.map Prod.snd ↔
      target.destroyed = false ∧ ackId ∈ (labels.foldl Books.add .new).waiting ∧
        ackId ∈ (sentUpdates target.history).map Prod.fst ∧
        ackId ∉ lapsedEdits target.history) ∧
      (target.timeouts.map Prod.snd).Nodup := by
  have sound := (Tracks.run run).sound
  rw [← books_run run]
  constructor
  · intro ackId
    constructor
    · intro inside
      obtain ⟨⟨timeout, _⟩, listed, rfl⟩ := List.mem_map.mp inside
      obtain ⟨pending, there, rfl, armed⟩ := (sound.timed _ _).mp listed
      have kept := sound.kept there
      refine ⟨kept, ?_, (sound.sent pending there).mp (.inl (armed ▸ rfl)), fun lapsed => ?_⟩
      · rw [books, ← sound.outstanding kept]
        exact List.mem_map_of_mem there
      · have idle := sound.single pending there ((sound.lapsed pending there).mpr lapsed)
        rw [armed] at idle
        cases idle
    · rintro ⟨kept, waits, sent, runs⟩
      rw [books, ← sound.outstanding kept] at waits
      obtain ⟨pending, there, rfl⟩ := List.mem_map.mp waits
      rcases (sound.sent pending there).mpr sent with armed | lapsed
      · obtain ⟨timeout, armed⟩ := Option.isSome_iff_exists.mp armed
        exact List.mem_map.mpr
          ⟨_, (sound.timed timeout pending.ackId).mpr ⟨pending, there, rfl, armed⟩, rfl⟩
      · exact absurd ((sound.lapsed pending there).mp lapsed) runs
  · refine List.Nodup.map_on ?_ (List.Nodup.of_map Prod.fst sound.distinct)
    rintro ⟨first, ackId⟩ own ⟨second, _⟩ other rfl
    obtain ⟨pending, there, same, armed⟩ := (sound.timed _ _).mp own
    obtain ⟨entry, inside, equal, set⟩ := (sound.timed _ _).mp other
    obtain rfl := sound.eq_of_ackId there inside (same.trans equal.symm)
    rw [Option.some.inj (armed.symm.trans set)]

/-- Of three edits one has lapsed and one is acknowledged. -/
theorem timeouts_exact_three : ∃ target : DocumentProvider Nat,
    documentProvider.Run (fun _ _ => True) createLocalDocumentProvider
      [.opened, .updated 7 false, .updated 8 false, .updated 9 false, .lapsed 0, .acknowledged 2]
      target ∧
    3 ∈ target.timeouts.map Prod.snd ∧ 1 ∉ target.timeouts.map Prod.snd := by
  obtain ⟨target, run, seen⟩ : ∃ target : DocumentProvider Nat,
      documentProvider.Run (fun _ _ => True) createLocalDocumentProvider
        [.opened, .updated 7 false, .updated 8 false, .updated 9 false, .lapsed 0,
          .acknowledged 2] target ∧
      (target.destroyed, (sentUpdates target.history).map Prod.fst, lapsedEdits target.history) =
        (false, [1, 2, 3], [1]) := Machine.evaluate_view (by decide)
  obtain ⟨kept, others⟩ := Prod.mk.inj seen
  obtain ⟨sent, lapsed⟩ := Prod.mk.inj others
  obtain ⟨armed, _⟩ := timeouts_exact run
  rw [sent, lapsed, kept] at armed
  refine ⟨target, run, (armed 3).mpr (by decide), fun inside => ?_⟩
  exact ((armed 1).mp inside).2.2.2 (by decide)

end DocumentProvider

end Kb1Daemon
