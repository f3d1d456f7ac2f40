import Mathlib.Order.Nat
import Kb1Daemon.Session.Calls

/-! # Baselines

A reader gets the text together with the encoded state vector of the document,
and an edit made with that baseline is refused as stale when the state vector is
another one by then. The state vector counts the structs each client has
inserted. A transaction that only deletes leaves it as it is, so the vector
names a text only as long as every transaction that changes the text also
inserts (`baseline_sound`); after a pure deletion an old baseline is accepted on
another text (`deletion_keeps_baseline`).
-/

namespace Kb1Daemon

variable {R : Runtime}

/-- What is assumed of state vectors: how many structs each client has inserted,
which no transaction lowers and the encoding shows. -/
structure StateVector (R : Runtime) where
  clock : R.Doc → Nat → Nat
  clock_of_encoded : ∀ first second,
    R.encodeStateVector first = R.encodeStateVector second → clock first = clock second
  clock_applyUpdate : ∀ doc update, clock doc ≤ clock (R.applyUpdate doc update)
  clock_applyDelta : ∀ doc content, clock doc ≤ clock (R.applyDelta doc content)

theorem StateVector.clock_le {V : StateVector R} {doc next : R.Doc}
    (transacts : Session.Transacts R doc next) : V.clock doc ≤ V.clock next := by
  cases transacts with
  | none => exact le_refl _
  | update update => exact V.clock_applyUpdate doc update
  | delta content => exact V.clock_applyDelta doc content

/-- A transaction of the step that changes the text also inserts. -/
def Inserting (V : StateVector R) (service : Service R) : ServiceLabel R → Prop
  | .load => True
  | label => ∀ next, (serviceMachine R).step service label = some next →
      next.site.session.currentContent = service.site.session.currentContent ∨
        V.clock next.site.session.doc ≠ V.clock service.site.session.doc

/-- Whenever a call with a baseline that was returned with a content goes
through to its edit callback, the callback is given that content. -/
def BaselineSound (service : Service R) : Prop :=
  ∀ reader ∈ service.calls, ∀ content baseline, reader.task = .returned content (some baseline) →
    ∀ editor ∈ service.calls, ∀ edit attribution,
      editor.request = .applyBaselineEdit baseline edit attribution → editor.task = .opening →
    ∀ session accepted text, editor.resume service.site.session = some (session, accepted) →
      accepted.handed = some text → text = content

/-- A returned baseline belongs to a document that the transactions since have
not taken to another text without inserting. -/
def Names (V : StateVector R) (doc : R.Doc) (content baseline : JsString) : Prop :=
  ∃ seen, R.text seen = content ∧ R.encodeStateVector seen = baseline ∧
    V.clock seen ≤ V.clock doc ∧ (V.clock seen = V.clock doc → R.text seen = R.text doc)

theorem Names.here (V : StateVector R) (doc : R.Doc) :
    Names V doc (R.text doc) (R.encodeStateVector doc) :=
  ⟨doc, rfl, rfl, le_refl _, fun _ => rfl⟩

theorem Names.transact {V : StateVector R} {doc next : R.Doc} {content baseline : JsString}
    (names : Names V doc content baseline) (transacts : Session.Transacts R doc next)
    (inserting : R.text next = R.text doc ∨ V.clock next ≠ V.clock doc) :
    Names V next content baseline := by
  obtain ⟨seen, text, encoded, below, same⟩ := names
  have grows := StateVector.clock_le (V := V) transacts
  refine ⟨seen, text, encoded, below.trans grows, ?_⟩
  intro reached
  have stayed : V.clock doc = V.clock next := le_antisymm grows (reached ▸ below)
  rcases inserting with kept | grown
  · rw [kept]
    exact same (reached.trans stayed.symm)
  · exact absurd stayed.symm grown

/-- An accepted baseline belongs to the text. -/
theorem Names.text_eq {V : StateVector R} {doc : R.Doc} {content : JsString}
    (names : Names V doc content (R.encodeStateVector doc)) : R.text doc = content := by
  obtain ⟨seen, text, encoded, _, same⟩ := names
  rw [← text]
  exact (same (V.clock_of_encoded seen doc encoded)).symm

/-- The calls of a service: on a cold session they wait for the load, a call
that waits has given nothing to its callback, and what was returned names the
text. -/
structure TokensAgree (V : StateVector R) (service : Service R) : Prop where
  cold : service.ColdWaits
  waiting : ∀ call ∈ service.calls, call.task = .opening → call.handed = none
  names : ∀ call ∈ service.calls, ∀ content baseline,
    call.task = .returned content (some baseline) →
      Names V service.site.session.doc content baseline

namespace Call

/-- A call that continues does not wait for the open again. -/
theorem Resumes.not_opening {call next : Call R} {session nextSession : Session R}
    (resumes : Resumes session call nextSession next) : next.task ≠ .opening := by
  cases resumes with
  | finish waits =>
      unfold afterFlush
      split <;> simp [standAt]
  | abandon waits =>
      unfold afterFailedFlush
      split <;> simp [standAt]
  | _ => simp [standAt, edit]

/-- What a call returns is the text and the state vector of that moment. -/
theorem Resumes.returned {call next : Call R} {session nextSession : Session R}
    {content baseline : JsString} (resumes : Resumes session call nextSession next)
    (returned : next.task = .returned content (some baseline)) :
    nextSession = session ∧ content = session.currentContent ∧
      baseline = session.currentBaseline := by
  cases resumes with
  | read waits opened request =>
      cases returned
      exact ⟨rfl, rfl, rfl⟩
  | finish waits =>
      unfold afterFlush at returned
      split at returned
      · cases returned
      · cases returned
      · cases returned
        exact ⟨rfl, rfl, rfl⟩
  | abandon waits =>
      unfold afterFailedFlush at returned
      split at returned <;> cases returned
  | _ => cases returned

/-- An edit callback is given the current text, and only under the current
baseline. -/
theorem Resumes.handed {call next : Call R} {session nextSession : Session R}
    {baseline text : JsString} {edit : JsString → Option JsString}
    {attribution : Option R.Attribution} (resumes : Resumes session call nextSession next)
    (opening : call.task = .opening) (untouched : call.handed = none)
    (requested : call.request = .applyBaselineEdit baseline edit attribution)
    (handed : next.handed = some text) :
    baseline = session.currentBaseline ∧ text = session.currentContent := by
  cases resumes with
  | refuse waits opened request current =>
      cases request.symm.trans requested
      exact ⟨current, (Option.some.inj handed).symm⟩
  | applyBaseline waits opened request live current edited =>
      cases request.symm.trans requested
      exact ⟨current, (Option.some.inj handed).symm⟩
  | finish waits | abandon waits | flush waits stepped =>
      rw [opening] at waits
      cases waits
  | apply waits opened request live => cases request.symm.trans requested
  | _ => cases untouched.symm.trans handed

end Call

/-- The load keeps the agreement: nothing was returned before it. -/
theorem TokensAgree.load {V : StateVector R} {service next : Service R}
    (agree : TokensAgree V service)
    (loaded : (serviceMachine R).step service .load = some next) : TokensAgree V next := by
  obtain ⟨closed, outcome⟩ := Service.load_cases loaded
  have waits := agree.cold closed
  have still : ∀ call ∈ next.calls, (call.task = .opening ∨ call.task = .failed) ∧
      (call.task = .opening → call.handed = none) := by
    intro call member
    rcases outcome with ⟨content, _, same⟩ | ⟨error, _, same⟩
    · rw [same] at member
      exact ⟨waits call member, agree.waiting call member⟩
    · rw [same] at member
      obtain ⟨old, listed, rfl⟩ := List.mem_map.mp member
      unfold Call.failOpen
      split
      · exact ⟨.inr rfl, fun opening => by cases opening⟩
      · exact ⟨waits old listed, agree.waiting old listed⟩
  refine ⟨serviceMachine_coldWaits agree.cold loaded, fun call member => (still call member).2, ?_⟩
  intro call member content baseline returned
  rcases (still call member).1 with opening | failed
  · simp [opening] at returned
  · simp [failed] at returned

/-- A step of the service keeps the agreement of its tokens, as long as the
transaction that changes the text inserts. -/
theorem TokensAgree.step {V : StateVector R} {service next : Service R} {label : ServiceLabel R}
    (agree : TokensAgree V service) (inserting : Inserting V service label)
    (stepped : (serviceMachine R).step service label = some next) : TokensAgree V next := by
  by_cases isLoad : label = .load
  · subst isLoad
    exact agree.load stepped
  have transacts := serviceMachine_transacts stepped isLoad
  have kept : next.site.session.currentContent = service.site.session.currentContent ∨
      V.clock next.site.session.doc ≠ V.clock service.site.session.doc := by
    cases label with
    | load => exact absurd rfl isLoad
    | _ => exact inserting next stepped
  refine ⟨serviceMachine_coldWaits agree.cold stepped, ?_, ?_⟩
  · intro call member opening
    cases Service.origin_of_mem stepped isLoad member with
    | kept old => exact agree.waiting call old opening
    | arrived untouched task => exact untouched
    | updated open_ flushing => simp [flushing] at opening
    | heard old deferred ended => rcases ended with ended | ended <;> simp [ended] at opening
    | resumed old resumes => exact absurd opening resumes.not_opening
  · intro call member content baseline returned
    cases Service.origin_of_mem stepped isLoad member with
    | kept old => exact (agree.names call old content baseline returned).transact transacts kept
    | arrived untouched task => rcases task with task | task <;> simp [task] at returned
    | updated open_ flushing => simp [flushing] at returned
    | heard old deferred ended => rcases ended with ended | ended <;> simp [ended] at returned
    | resumed old resumes =>
        obtain ⟨same, rfl, rfl⟩ := resumes.returned returned
        rw [same]
        exact Names.here V _

/-- **Baselines name texts.** In every run whose transactions insert whenever
they change the text, from a session without earlier calls, an edit that is not
rejected as stale is given the content its baseline was returned with. -/
theorem baseline_sound (V : StateVector R) {source target : Service R}
    {labels : List (ServiceLabel R)} (start : source.calls = [])
    (run : (serviceMachine R).Run (Inserting V) source labels target) :
    BaselineSound target := by
  have keep : ∀ (service : Service R) label next, Inserting V service label →
      (serviceMachine R).step service label = some next →
      TokensAgree V service → TokensAgree V next :=
    fun service label next inserting stepped agree => agree.step inserting stepped
  have initial : TokensAgree V source :=
    ⟨by simp [Service.ColdWaits, start], by simp [start], by simp [start]⟩
  have agree := run.invariant keep initial
  intro reader readerListed content baseline returned editor editorListed edit attribution
    requested opening session accepted text resumed handed
  have untouched := agree.waiting editor editorListed opening
  obtain ⟨rfl, rfl⟩ :=
    (Call.resumes_of_resume resumed).handed opening untouched requested handed
  exact (agree.names reader readerListed content _ returned).text_eq

namespace Replica

theorem clock_append (first second : List ReplicaItem) (client : Nat) :
    clock (first ++ second) client = clock first client + clock second client :=
  List.countP_append

theorem clock_cons (item : ReplicaItem) (items : List ReplicaItem) (client : Nat) :
    clock (item :: items) client = clock items client + if item.client = client then 1 else 0 := by
  simp [clock, List.countP_cons]

theorem clock_insertItems (added items : List ReplicaItem) (index client : Nat) :
    clock (insertItems added items index) client = clock added client + clock items client := by
  induction items generalizing index with
  | nil => cases index <;> simp [insertItems, clock]
  | cons item items ih =>
      cases index with
      | zero => rw [insertItems, clock_append]
      | succ index =>
          rw [insertItems, clock_cons, clock_cons, ih]
          omega

theorem clock_deleteItems (items : List ReplicaItem) (index length client : Nat) :
    clock (deleteItems items index length) client = clock items client := by
  induction items generalizing index length with
  | nil => rfl
  | cons item items ih =>
      cases length with
      | zero => simp [deleteItems]
      | succ length =>
          cases index with
          | zero =>
              rw [deleteItems]
              split <;> simp [clock_cons, ih]
          | succ index =>
              rw [deleteItems]
              simp [clock_cons, ih]

theorem clock_insert_le (items : List ReplicaItem) (client index : Nat) (content : JsString) :
    clock items ≤ clock (insert items client index content) := by
  intro other
  rw [insert, clock_insertItems]
  exact Nat.le_add_left _ _

theorem clock_of_le_bound {items : List ReplicaItem} {client : Nat}
    (beyond : clientBound items ≤ client) : clock items client = 0 := by
  induction items with
  | nil => rfl
  | cons item items ih =>
      rw [clientBound, List.foldr_cons, Nat.max_le] at beyond
      rw [clock_cons, ih beyond.2, if_neg (by omega)]

/-- Numbers in unary can be told apart. -/
theorem unary_injective {first second : List Nat}
    (same : (first.flatMap fun count => List.replicate count (1 : CodeUnit) ++ [0]) =
      second.flatMap fun count => List.replicate count (1 : CodeUnit) ++ [0]) :
    first = second := by
  induction first generalizing second with
  | nil =>
      cases second with
      | nil => rfl
      | cons count second => simp at same
  | cons count first ih =>
      cases second with
      | nil => simp at same
      | cons other second =>
          rw [List.flatMap_cons, List.flatMap_cons, List.append_assoc, List.append_assoc] at same
          have counts : ∀ (count other : Nat) (rest rest' : JsString),
              List.replicate count (1 : CodeUnit) ++ ([0] ++ rest) =
                List.replicate other 1 ++ ([0] ++ rest') → count = other ∧ rest = rest' := by
            intro count
            induction count with
            | zero =>
                intro other rest rest' equal
                cases other with
                | zero => exact ⟨rfl, by simpa using equal⟩
                | succ other => simp [List.replicate_succ] at equal
            | succ count ih =>
                intro other rest rest' equal
                cases other with
                | zero => simp [List.replicate_succ] at equal
                | succ other =>
                    simp only [List.replicate_succ, List.cons_append, List.cons.injEq,
                      true_and] at equal
                    obtain ⟨rfl, same⟩ := ih other rest rest' equal
                    exact ⟨rfl, same⟩
          obtain ⟨rfl, rest⟩ := counts count other _ _ same
          rw [ih rest]

theorem clock_of_encoded {first second : List ReplicaItem}
    (same : encodeStateVector first = encodeStateVector second) :
    clock first = clock second := by
  have clocks : (List.range (clientBound first)).map (clock first) =
      (List.range (clientBound second)).map (clock second) := by
    apply unary_injective
    rw [List.flatMap_map, List.flatMap_map]
    exact same
  have bounds : clientBound first = clientBound second := by
    simpa using congrArg List.length clocks
  funext client
  by_cases inside : client < clientBound first
  · have entry := congrArg (fun list => list[client]?) clocks
    simpa [inside, ← bounds] using entry
  · rw [clock_of_le_bound (by omega), clock_of_le_bound (by omega)]

/-- The clocks of the concrete runtime are state vectors. -/
def stateVector : StateVector replicaRuntime where
  clock := clock
  clock_of_encoded := fun _ _ same => clock_of_encoded same
  clock_applyUpdate := by
    intro items update
    cases update with
    | insert client index content => exact clock_insert_le items client index content
    | delete index length =>
        intro client
        exact (clock_deleteItems items index length client).ge
  clock_applyDelta := by
    intro items content client
    refine le_trans ?_ (clock_insert_le _ 0 _ _ client)
    exact (clock_deleteItems items _ _ client).ge

end Replica

/-- A reader is given the text `ab` with its baseline, a client deletes the `b`,
and an edit with the same baseline is handed `a`. -/
theorem deletion_keeps_baseline :
    ∃ target, (serviceMachine replicaRuntime).Run (fun _ _ => True)
        (Replica.openedService [97, 98])
        [.request .readWithBaseline, .resume 0, .session (.update (.delete 1 1) none),
          .request (.applyBaselineEdit (Replica.encodeStateVector
            (Replica.openedService [97, 98]).site.session.doc) some none)] target ∧
      ¬ BaselineSound target := by
  refine ⟨_, .cons trivial rfl (.cons trivial rfl (.cons trivial rfl (.cons trivial rfl
    (.nil _)))), ?_⟩
  intro sound
  have handed := sound _ (List.mem_cons_self) _ _ rfl _
    (List.mem_cons_of_mem _ (List.mem_cons_self)) _ _ rfl rfl _ _ _ rfl rfl
  revert handed
  decide

/-- A read, an insertion by a client, a second read and an edit with its
baseline. -/
theorem baseline_sound_inserted :
    ∃ target, (serviceMachine replicaRuntime).Run (Inserting Replica.stateVector)
        (Replica.openedService [97])
        [.request .readWithBaseline, .resume 0, .session (.update (.insert 1 1 [98]) none),
          .request .readWithBaseline, .resume 1,
          .request (.applyBaselineEdit [1, 0, 1, 0] some none)] target ∧
      target.calls[1]?.map Call.task = some (.returned [97, 98] (some [1, 0, 1, 0])) ∧
      BaselineSound target := by
  have grown : Replica.clock (Replica.insert (Replica.openedService [97]).site.session.doc 1 1 [98])
      ≠ Replica.clock (Replica.openedService [97]).site.session.doc := by
    intro same
    have counted := congrFun same 1
    revert counted
    decide
  have run : (serviceMachine replicaRuntime).Run (Inserting Replica.stateVector)
      (Replica.openedService [97])
      [.request .readWithBaseline, .resume 0, .session (.update (.insert 1 1 [98]) none),
        .request .readWithBaseline, .resume 1,
        .request (.applyBaselineEdit [1, 0, 1, 0] some none)] _ :=
    .cons (fun _ stepped => by cases stepped; exact .inl rfl) rfl
      (.cons (fun _ stepped => by cases stepped; exact .inl rfl) rfl
      (.cons (fun _ stepped => by cases stepped; exact .inr grown) rfl
      (.cons (fun _ stepped => by cases stepped; exact .inl rfl) rfl
      (.cons (fun _ stepped => by cases stepped; exact .inl rfl) rfl
      (.cons (fun _ stepped => by cases stepped; exact .inl rfl) rfl (.nil _))))))
  exact ⟨_, run, rfl, baseline_sound Replica.stateVector rfl run⟩

end Kb1Daemon
