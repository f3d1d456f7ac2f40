import Mathlib.Data.List.Basic
import Kb1Daemon.Session.Calls
import Kb1Daemon.Session.OwnWrites
import Kb1Daemon.Text.Splice

/-! # Concurrent additions to a note

`appendNote` and `prependNote` compute the new text from the document and hand
it to `applyPositionedContent`, which awaits the open session once more before
it takes the document to that text. An addition applied in between is undone by
the older text (`append_lost`). When no call computes its text while another one
still has to apply its own, and no check of the file is overtaken, the document
is the result of all additions one after another (`no_lost_append`).
-/

namespace Kb1Daemon

variable {R : Runtime}

/-- What `appendNote` and `prependNote` add. -/
inductive Addition where
  | append (content : JsString)
  | prepend (content : JsString)

namespace Addition

/-- The content of an addition. -/
def content : Addition → JsString
  | .append content | .prepend content => content

/-- The text after an addition. -/
def apply (text : JsString) : Addition → JsString
  | .append content => appendContent text content
  | .prepend content => prependContent text content

/-- The call an addition makes on the session. -/
def request (addition : Addition) (attribution : Option R.Attribution) : Request R :=
  .applyContentEdit (fun text => addition.apply text) attribution

end Addition

/-- What the edit of a request makes of a text. -/
def Request.splice (text : JsString) : Request R → JsString
  | .applyContentEdit edit _ => edit text
  | _ => text

/-- The calls are additions, nothing but the session writes the file and no
I/O fails. -/
def OnlyAdditions : ServiceLabel R → Prop
  | .request request => ∃ (addition : Addition) (attribution : Option R.Attribution),
      addition.content ≠ [] ∧ request = addition.request attribution
  | .load | .resume _ => True
  | .session (.persist io) | .session (.check io) => io = .ok
  | .session .startCheck => True
  | .session _ => False

/-- The call has computed its text and not applied it. -/
def Call.isPositioned (call : Call R) : Bool :=
  match call.task with
  | .positioned _ => true
  | _ => false

/-- A call computes its text while another one still has to apply its own, or
the persist loop overtakes a check. -/
def Interferes (service : Service R) : ServiceLabel R → Prop
  | .resume index => service.calls[index]?.map Call.task = some .opening ∧
      ∃ other ∈ service.calls, other.isPositioned = true
  | .session label => OvertakesCheck service.site label
  | _ => False

/-- The text of the session, or the text its open will show. -/
def Site.shownContent (site : Site R) : JsString :=
  if site.session.opened then site.session.currentContent
  else site.load.1.session.currentContent

/-- If every call has returned, the text is the result of all their additions,
one after another in some order. -/
def NoLostAddition (start : JsString) (service : Service R) : Prop :=
  (∀ call ∈ service.calls, ∃ content baseline, call.task = .returned content baseline) →
    ∃ order : List (Request R), order.Perm (service.calls.map Call.request) ∧
      service.site.shownContent = order.foldl Request.splice start

namespace Call

/-- The call has applied its edit. -/
def isApplied (call : Call R) : Bool :=
  match call.task with
  | .flushing _ | .returned _ _ => true
  | _ => false

/-- The call is an addition. -/
structure Adds (call : Call R) : Prop where
  request : ∃ edit attribution, call.request = .applyContentEdit edit attribution
  task : call.task ≠ .deferred

theorem isPositioned_iff {call : Call R} :
    call.isPositioned = true ↔ ∃ content, call.task = .positioned content := by
  unfold isPositioned
  split
  · rename_i content positioned
    simp [positioned]
  · rename_i other
    simp only [Bool.false_eq_true, false_iff, not_exists]
    exact fun content positioned => other content positioned

end Call

/-- The requests of the calls that have applied their edit. -/
def Service.applied (calls : List (Call R)) : List (Request R) :=
  (calls.filter Call.isApplied).map Call.request

/-- The open session is alone with its file, at most one call holds a text it
has not applied, that text is its edit of the current one, and the current one is
the result of the applied edits unless a call has failed. -/
structure Appending (start : JsString) (service : Service R) : Prop where
  own : service.site.session.OwnDisk service.site.disk
  calls : ∀ call ∈ service.calls, call.Adds
  single : service.calls.countP Call.isPositioned ≤ 1
  positioned : ∀ call ∈ service.calls, ∀ content, call.task = .positioned content →
    content = call.request.splice service.site.session.currentContent
  order : (∃ call ∈ service.calls, call.task = .failed) ∨
    ∃ order : List (Request R), order.Perm (Service.applied service.calls) ∧
      service.site.session.currentContent = order.foldl Request.splice start

theorem Service.applied_replace {front back : List (Call R)} {call after : Call R}
    (request : after.request = call.request) (same : after.isApplied = call.isApplied) :
    Service.applied (front ++ after :: back) = Service.applied (front ++ call :: back) := by
  cases applied : call.isApplied <;>
    simp [Service.applied, same, applied, request]

theorem Service.applied_add {front back : List (Call R)} {call after : Call R}
    (request : after.request = call.request) (before : call.isApplied = false)
    (now : after.isApplied = true) :
    (Service.applied (front ++ call :: back) ++ [call.request]).Perm
      (Service.applied (front ++ after :: back)) := by
  simp only [Service.applied, List.filter_append, List.filter_cons, before, now, request,
    Bool.false_eq_true, ↓reduceIte, List.map_append, List.map_cons, List.append_assoc]
  apply List.Perm.append_left
  exact List.perm_append_singleton _ _

/-- A call is replaced by its next stage and the text stays. -/
theorem Appending.replace {start : JsString} {service : Service R} {session : Session R}
    {front back : List (Call R)} {call after : Call R} (appending : Appending start service)
    (split : service.calls = front ++ call :: back)
    (own : session.OwnDisk service.site.disk)
    (text : session.currentContent = service.site.session.currentContent)
    (request : after.request = call.request) (task : after.task ≠ .deferred)
    (positioned : ∀ content, after.task = .positioned content →
      content = call.request.splice service.site.session.currentContent)
    (single : (front ++ after :: back).countP Call.isPositioned ≤ 1)
    (progress : after.task = .failed ∨
      after.isApplied = call.isApplied ∧ call.task ≠ .failed) :
    Appending start ⟨{ service.site with session := session }, front ++ after :: back⟩ := by
  have member {other : Call R} (listed : other ∈ front ++ after :: back) :
      other = after ∨ other ∈ service.calls := by
    rw [split]
    simp only [List.mem_append, List.mem_cons] at listed ⊢
    rcases listed with inFront | rfl | inBack
    · exact .inr (.inl inFront)
    · exact .inl rfl
    · exact .inr (.inr (.inr inBack))
  have listed : call ∈ service.calls := by simp [split]
  refine ⟨own, ?_, single, ?_, ?_⟩
  · intro other inside
    rcases member inside with rfl | old
    · exact ⟨request ▸ (appending.calls call listed).request, task⟩
    · exact appending.calls other old
  · intro other inside content stands
    dsimp only
    rw [text]
    rcases member inside with rfl | old
    · rw [request]
      exact positioned content stands
    · exact appending.positioned other old content stands
  · rcases progress with failed | ⟨applied, running⟩
    · exact .inl ⟨after, by simp, failed⟩
    · rcases appending.order with ⟨other, old, failed⟩ | ⟨order, perm, result⟩
      · refine .inl ⟨other, ?_, failed⟩
        rw [split] at old
        simp only [List.mem_append, List.mem_cons] at old ⊢
        rcases old with inFront | rfl | inBack
        · exact .inl inFront
        · exact absurd failed running
        · exact .inr (.inr inBack)
      · refine .inr ⟨order, ?_, text.trans result⟩
        rw [Service.applied_replace request applied, ← split]
        exact perm

/-- A call moves on to a stage at which it holds no text. -/
theorem Appending.advance {start : JsString} {service : Service R} {session : Session R}
    {front back : List (Call R)} {call : Call R} {task : CallTask}
    (appending : Appending start service) (split : service.calls = front ++ call :: back)
    (own : session.OwnDisk service.site.disk)
    (text : session.currentContent = service.site.session.currentContent)
    (elsewhere : ∀ content, task ≠ .positioned content) (told : task ≠ .deferred)
    (progress : task = .failed ∨
      (call.standAt task).isApplied = call.isApplied ∧ call.task ≠ .failed) :
    Appending start
      ⟨{ service.site with session := session }, front ++ call.standAt task :: back⟩ := by
  have free : (call.standAt task).isPositioned = false := by
    by_contra holds
    obtain ⟨content, stands⟩ := Call.isPositioned_iff.mp (by simpa using holds)
    exact elsewhere content stands
  have single := appending.single
  refine appending.replace split own text rfl told (fun content stands =>
    absurd stands (elsewhere content)) ?_ progress
  simp only [split, List.countP_append, List.countP_cons] at single ⊢
  simp only [free, Bool.false_eq_true, ↓reduceIte]
  omega

/-- Flushing keeps the agreement with the disk. -/
theorem Session.OwnDisk.flush {session : Session R} {disk : Disk} (own : session.OwnDisk disk) :
    session.flush.1.OwnDisk disk := by
  rcases session.flush_cases with same | requested
  · rw [same]
    exact own
  · rw [requested]
    exact own.requestPersist

/-- The one call that holds a text applies it. -/
theorem Appending.applyPositioned {start content : JsString} {service : Service R}
    {front back : List (Call R)} {call : Call R} (appending : Appending start service)
    (split : service.calls = front ++ call :: back) (stands : call.task = .positioned content) :
    Appending start
      ⟨{ service.site with
          session := (call.edit service.site.session content call.attribution).1 },
        front ++ (call.edit service.site.session content call.attribution).2 :: back⟩ := by
  have listed : call ∈ service.calls := by simp [split]
  have holds : call.isPositioned = true := Call.isPositioned_iff.mpr ⟨content, stands⟩
  have alone : front.countP Call.isPositioned = 0 ∧ back.countP Call.isPositioned = 0 := by
    have single := appending.single
    rw [split, List.countP_append, List.countP_cons, if_pos holds] at single
    omega
  have others : ∀ other ∈ front ++ back, other ∈ service.calls ∧ other.isPositioned = false := by
    intro other inside
    rw [split]
    rcases List.mem_append.mp inside with inFront | inBack
    · exact ⟨by simp [inFront], by simpa using List.countP_eq_zero.mp alone.1 other inFront⟩
    · exact ⟨by simp [inBack], by simpa using List.countP_eq_zero.mp alone.2 other inBack⟩
  have text : (call.edit service.site.session content call.attribution).1.currentContent =
      content := call.currentContent_edit _ content call.attribution
  have spliced := appending.positioned call listed content stands
  have own := (appending.own.applyContent content call.attribution).1.flush
  refine ⟨own, ?_, ?_, ?_, ?_⟩
  · intro other inside
    simp only [List.mem_append, List.mem_cons] at inside
    rcases inside with inFront | rfl | inBack
    · exact appending.calls other (others other (by simp [inFront])).1
    · exact ⟨(appending.calls call listed).request, by simp [Call.edit, Call.standAt]⟩
    · exact appending.calls other (others other (by simp [inBack])).1
  · rw [List.countP_append, List.countP_cons, alone.1, alone.2]
    split <;> omega
  · intro other inside other_content positioned
    have isPositioned := Call.isPositioned_iff.mpr ⟨other_content, positioned⟩
    simp only [List.mem_append, List.mem_cons] at inside
    rcases inside with inFront | rfl | inBack
    · simp [(others other (by simp [inFront])).2] at isPositioned
    · simp [Call.edit, Call.standAt] at positioned
    · simp [(others other (by simp [inBack])).2] at isPositioned
  · rcases appending.order with ⟨other, old, failed⟩ | ⟨order, perm, result⟩
    · refine .inl ⟨other, ?_, failed⟩
      rw [split] at old
      simp only [List.mem_append, List.mem_cons] at old ⊢
      rcases old with inFront | rfl | inBack
      · exact .inl inFront
      · simp [stands] at failed
      · exact .inr (.inr inBack)
    · refine .inr ⟨order ++ [call.request], ?_, ?_⟩
      · rw [split] at perm
        refine (perm.append_right [call.request]).trans ?_
        exact Service.applied_add rfl (by simp [Call.isApplied, stands]) rfl
      · dsimp only
        rw [text, List.foldl_append, ← result]
        exact spliced

/-- A call that continues without interference keeps the additions. -/
theorem Appending.resume {start : JsString} {service next : Service R} {index : Nat}
    (appending : Appending start service) (apart : ¬ Interferes service (.resume index))
    (resumed : service.resume index = some next) : Appending start next := by
  obtain ⟨front, call, back, session, after, found, split, resumes, rfl⟩ :=
    Service.resume_cases resumed
  obtain ⟨edit, attribution, request⟩ := (appending.calls call (by simp [split])).request
  cases resumes with
  | read waits opened other => cases request.symm.trans other
  | apply waits opened other live => cases request.symm.trans other
  | stale waits opened other => cases request.symm.trans other
  | refuse waits opened other current => cases request.symm.trans other
  | applyBaseline waits opened other live current edited => cases request.symm.trans other
  | fail waits => exact appending.advance split appending.own rfl (by simp) (by simp) (.inl rfl)
  | position waits opened other live =>
      cases request.symm.trans other
      have none : (front ++ call :: back).countP Call.isPositioned = 0 := by
        rw [← split, List.countP_eq_zero]
        intro listed inside positioned
        apply apart
        exact ⟨by simp [found, waits], listed, inside, positioned⟩
      refine appending.replace split appending.own rfl rfl (by simp [Call.standAt]) ?_ ?_
        (.inr ⟨by simp [Call.isApplied, Call.standAt, waits], by simp [waits]⟩)
      · intro content stands
        cases stands
        rw [request]
        rfl
      · simp only [List.countP_append, List.countP_cons] at none ⊢
        split <;> omega
  | applyPositioned waits live => exact appending.applyPositioned split waits
  | finish waits =>
      have finished : call.afterFlush service.site.session =
          call.standAt (.returned service.site.session.currentContent
            (some service.site.session.currentBaseline)) := by
        simp [Call.afterFlush, request]
      rw [finished]
      exact appending.advance split appending.own rfl (by simp) (by simp)
        (.inr ⟨by simp [Call.isApplied, Call.standAt, waits], by simp [waits]⟩)
  | abandon waits =>
      have abandoned : call.afterFailedFlush = call.standAt .failed := by
        simp [Call.afterFailedFlush, request]
      rw [abandoned]
      exact appending.advance split appending.own rfl (by simp) (by simp) (.inl rfl)
  | flush waits stepped =>
      have own : session.OwnDisk service.site.disk ∧
          session.currentContent = service.site.session.currentContent := by
        rcases Session.flushStep_cases stepped with rfl | rfl
        · exact ⟨appending.own, rfl⟩
        · refine ⟨appending.own.requestPersist, ?_⟩
          rw [Session.currentContent, (Session.requestPersist_fields _).1]
          rfl
      exact appending.advance split own.1 own.2 (by simp) (by simp)
        (.inr ⟨by simp [Call.isApplied, Call.standAt, waits], by simp [waits]⟩)

/-- Events do not reach calls without a deferred acknowledgement. -/
theorem Service.hear_eq {before after : Session R} {calls : List (Call R)}
    (none : ∀ call ∈ calls, call.task ≠ .deferred) : hear before after calls = calls := by
  unfold hear
  generalize after.events.drop before.events.length = emitted
  induction emitted with
  | nil => rfl
  | cons event events ih =>
      have deaf : (calls.map fun call => call.hear event) = calls := by
        rw [List.map_congr_left (g := id), List.map_id]
        intro call listed
        unfold Call.hear
        split
        · rename_i deferred _
          exact absurd deferred (none call listed)
        · rename_i deferred _
          exact absurd deferred (none call listed)
        · rfl
      rw [List.foldl_cons, deaf]
      exact ih

/-- An undisturbed step of the session itself keeps the additions. -/
theorem Appending.session {start : JsString} {service next : Service R} {label : SessionLabel R}
    (appending : Appending start service) (allowed : OnlyAdditions (.session label : ServiceLabel R))
    (apart : ¬ OvertakesCheck service.site label)
    (stepped : (serviceMachine R).step service (.session label) = some next) :
    Appending start next := by
  obtain ⟨site, moved, rfl⟩ := Option.map_eq_some_iff.mp stepped
  have faultless : label.Faultless := by
    cases label <;> first | exact allowed | exact allowed.elim
  obtain ⟨own, doc, _⟩ := sessionMachine_step_ownDisk
    (undisturbed_of_faultless faultless apart) moved appending.own
  have unchanged : SessionLabel.change service.site.session.doc label =
      service.site.session.doc := by
    cases label <;> first | rfl | exact allowed.elim
  have text : site.session.currentContent = service.site.session.currentContent := by
    rw [Session.currentContent, doc, unchanged]
    rfl
  have deaf : Service.hear service.site.session site.session service.calls = service.calls :=
    Service.hear_eq fun call listed => (appending.calls call listed).task
  rw [deaf]
  refine ⟨own, appending.calls, appending.single, ?_, ?_⟩
  · dsimp only
    rw [text]
    exact appending.positioned
  · dsimp only
    rw [text]
    exact appending.order

/-- A further addition arrives. -/
theorem Appending.request {start : JsString} {service next : Service R} {request : Request R}
    (appending : Appending start service) (allowed : OnlyAdditions (.request request))
    (arrived : service.request request = some next) : Appending start next := by
  obtain ⟨addition, attribution, _, rfl⟩ := allowed
  have live := appending.own.live
  simp only [Service.request, Addition.request, live, Bool.false_eq_true, ↓reduceIte] at arrived
  obtain rfl := Option.some.inj arrived
  have member {other : Call R}
      (listed : other ∈ service.calls ++ [⟨addition.request attribution, .opening, none⟩]) :
      other ∈ service.calls ∨ other = ⟨addition.request attribution, .opening, none⟩ := by
    simpa using listed
  refine ⟨appending.own, ?_, ?_, ?_, ?_⟩
  · intro other listed
    rcases member listed with old | rfl
    · exact appending.calls other old
    · exact ⟨⟨_, attribution, rfl⟩, by simp⟩
  · simpa [Call.isPositioned] using appending.single
  · intro other listed content positioned
    rcases member listed with old | rfl
    · exact appending.positioned other old content positioned
    · cases positioned
  · rcases appending.order with ⟨other, old, failed⟩ | ⟨order, perm, result⟩
    · exact .inl ⟨other, List.mem_append_left _ old, failed⟩
    · refine .inr ⟨order, ?_, result⟩
      simpa [Service.applied, Call.isApplied] using perm

/-- A cold service: the session is as it was, and every call waits for its
open or has failed. -/
structure Waiting (source service : Service R) : Prop where
  cold : source.site.session.Cold
  site : service.site = source.site
  calls : ∀ call ∈ service.calls, call.Adds ∧ (call.task = .opening ∨ call.task = .failed)

/-- A successful load of a cold session from the disk. -/
theorem Site.ownDisk_load {site next : Site R} {content : JsString} (cold : site.session.Cold)
    (loaded : site.load = (next, .ok content)) : next.session.OwnDisk next.disk := by
  unfold Site.load at loaded
  split at loaded
  · cases loaded
  · rename_i session read opened
    cases loaded
    have held : (if (site.disk.files site.session.filePath).isNone then
          site.disk.write site.session.filePath content
        else site.disk).files site.session.filePath = some content := by
      cases file : site.disk.files site.session.filePath with
      | none => simp
      | some existing =>
          have readBack : existing = content := by
            simp only [Session.loadFromFile, Site.openInput, file, Session.readFile] at opened
            split at opened
            · cases opened
            · split at opened
              · cases opened
              · exact Except.ok.inj (Prod.mk.inj opened).2
          simp [file, readBack]
    refine (Site.clean_of_loadFromFile cold opened ?_).own
    split
    · exact held
    · rw [Disk.writeSnapshot_files]
      exact held

/-- Without a failing step a load only fails on a missing file, and leaves the
session as it was. -/
theorem Site.load_error {site next : Site R} {error : OpenError}
    (failed : site.load = (next, .error error)) : next = site := by
  unfold Site.load at failed
  split at failed
  · rename_i session kind opened
    cases failed
    unfold Session.loadFromFile at opened
    split at opened
    · cases opened
      rfl
    · split at opened
      · cases opened
        rfl
      · rw [if_neg (by simp [Site.openInput])] at opened
        cases opened
  · cases failed

/-- A step of a cold service leaves it cold, or opens it. -/
theorem Waiting.step {source service next : Service R} {label : ServiceLabel R}
    (waiting : Waiting source service) (allowed : OnlyAdditions label)
    (stepped : (serviceMachine R).step service label = some next) :
    Waiting source next ∨ Appending source.site.shownContent next := by
  have closed : service.site.session.opened = false := waiting.site ▸ waiting.cold.closed
  cases label with
  | request request =>
      left
      obtain ⟨addition, attribution, _, rfl⟩ := allowed
      have live : service.site.session.deleted = false := waiting.site ▸ waiting.cold.live
      simp only [serviceMachine, Service.request, Addition.request, live, Bool.false_eq_true,
        ↓reduceIte] at stepped
      obtain rfl := Option.some.inj stepped
      refine ⟨waiting.cold, waiting.site, ?_⟩
      intro call listed
      rcases List.mem_append.mp listed with old | new
      · exact waiting.calls call old
      · obtain rfl := List.mem_singleton.mp new
        exact ⟨⟨⟨_, attribution, rfl⟩, by simp⟩, .inl rfl⟩
  | load =>
      obtain ⟨_, ⟨content, loaded, same⟩ | ⟨error, loaded, same⟩⟩ := Service.load_cases stepped
      · right
        have start : source.site.shownContent = next.site.session.currentContent := by
          rw [Site.shownContent, waiting.cold.closed, ← waiting.site, loaded]
          rfl
        have unapplied : ∀ call ∈ service.calls,
            call.isApplied = false ∧ call.isPositioned = false := by
          intro call listed
          rcases (waiting.calls call listed).2 with task | task <;>
            simp [Call.isApplied, Call.isPositioned, task]
        refine ⟨Site.ownDisk_load (waiting.site ▸ waiting.cold) loaded, ?_, ?_, ?_, ?_⟩
        · rw [same]
          exact fun call listed => (waiting.calls call listed).1
        · rw [same, List.countP_eq_zero.mpr]
          · exact Nat.zero_le 1
          · intro call listed
            simp [unapplied call listed]
        · rw [same]
          intro call listed content positioned
          rcases (waiting.calls call listed).2 with task | task <;> simp [task] at positioned
        · refine .inr ⟨[], ?_, start.symm⟩
          rw [same, Service.applied, List.filter_eq_nil_iff.mpr]
          · exact List.Perm.refl _
          · intro call listed
            simp [unapplied call listed]
      · left
        have still := Site.load_error loaded
        refine ⟨waiting.cold, still.trans waiting.site, ?_⟩
        rw [same]
        intro call listed
        obtain ⟨old, before, rfl⟩ := List.mem_map.mp listed
        obtain ⟨adds, task⟩ := waiting.calls old before
        unfold Call.failOpen
        split
        · exact ⟨⟨adds.request, by simp [Call.standAt]⟩, .inr rfl⟩
        · exact ⟨adds, task⟩
  | resume index =>
      obtain ⟨front, call, back, session, after, _, split, resumes, rfl⟩ :=
        Service.resume_cases stepped
      have opened := resumes.past_open (waiting.calls call (by simp [split])).2
      simp [closed] at opened
  | session label =>
      obtain ⟨site, moved, rfl⟩ := Option.map_eq_some_iff.mp stepped
      have cold : service.site.session.Cold := waiting.site ▸ waiting.cold
      cases label with
      | persist io => simp [sessionMachine, Session.persistStep, cold.persist] at moved
      | startCheck => simp [sessionMachine, Session.startCheck, cold.check, cold.unwatched] at moved
      | check io => simp [sessionMachine, Session.checkStep, cold.check] at moved
      | _ => exact allowed.elim

/-- **No lost append.** From an open session that is alone with its file, or a
cold one, in every interleaving of additions in which no call computes its text
while another one still has to apply its own and no check is overtaken: if every
call returns, the text is the result of all additions one after another. -/
theorem no_lost_append {source target : Service R} {labels : List (ServiceLabel R)}
    (unstarted : source.calls = [])
    (start : source.site.session.OwnDisk source.site.disk ∨ source.site.session.Cold)
    (run : (serviceMachine R).Run
      (fun service label => OnlyAdditions label ∧ ¬ Interferes service label)
      source labels target) :
    NoLostAddition source.site.shownContent target := by
  have keep : ∀ (service : Service R) label next,
      OnlyAdditions label ∧ ¬ Interferes service label →
      (serviceMachine R).step service label = some next →
      Waiting source service ∨ Appending source.site.shownContent service →
      Waiting source next ∨ Appending source.site.shownContent next := by
    rintro service label next ⟨allowed, apart⟩ stepped (waiting | appending)
    · exact waiting.step allowed stepped
    · right
      cases label with
      | request request => exact appending.request allowed stepped
      | load =>
          have closed := (Service.load_cases stepped).1
          rw [appending.own.opened] at closed
          cases closed
      | resume index => exact appending.resume apart stepped
      | session label => exact appending.session allowed apart stepped
  have initial : Waiting source source ∨ Appending source.site.shownContent source := by
    rcases start with own | cold
    · right
      have text : source.site.shownContent = source.site.session.currentContent := by
        rw [Site.shownContent, if_pos own.opened]
      refine ⟨own, by simp [unstarted], by simp [unstarted], by simp [unstarted], .inr ⟨[], ?_, ?_⟩⟩
      · simp [Service.applied, unstarted]
      · exact text.symm
    · exact .inl ⟨cold, rfl, by simp [unstarted]⟩
  have final := run.invariant keep initial
  intro returned
  rcases final with waiting | appending
  · have none : target.calls = [] := by
      apply List.eq_nil_iff_forall_not_mem.mpr
      intro call listed
      obtain ⟨content, baseline, task⟩ := returned call listed
      have waits := (waiting.calls call listed).2
      simp [task] at waits
    refine ⟨[], by simp [none], ?_⟩
    rw [waiting.site]
    rfl
  · have all : target.calls.filter Call.isApplied = target.calls := by
      apply List.filter_eq_self.mpr
      intro call listed
      obtain ⟨content, baseline, task⟩ := returned call listed
      simp [Call.isApplied, task]
    rcases appending.order with ⟨call, listed, failed⟩ | ⟨order, perm, result⟩
    · obtain ⟨content, baseline, task⟩ := returned call listed
      simp [task] at failed
    · refine ⟨order, ?_, ?_⟩
      · rw [Service.applied, all] at perm
        exact perm
      · rw [Site.shownContent, if_pos appending.own.opened]
        exact result

/-- Edits that each add one unit make the text longer by their number. -/
theorem length_foldl_splice (order : List (Request R)) (start : JsString)
    (longer : ∀ request ∈ order, ∀ text, (request.splice text).length = text.length + 1) :
    (order.foldl Request.splice start).length = start.length + order.length := by
  induction order generalizing start with
  | nil => rfl
  | cons request order ih =>
      rw [List.foldl_cons, ih _ fun other listed => longer other (List.mem_cons_of_mem _ listed),
        longer request List.mem_cons_self, List.length_cons]
      omega

/-- A step of a call or of the session itself in which no I/O fails. -/
def ServiceLabel.continues : ServiceLabel R → Bool
  | .load | .resume _ | .session .startCheck => true
  | .session (.persist io) | .session (.check io) => io = .ok
  | _ => false

theorem ServiceLabel.onlyAdditions_of_continues {label : ServiceLabel R}
    (goes : label.continues = true) : OnlyAdditions label := by
  unfold continues at goes
  split at goes
  · trivial
  · trivial
  · trivial
  · simpa [OnlyAdditions] using goes
  · simpa [OnlyAdditions] using goes
  · cases goes

theorem Call.Resumes.request {call next : Call R} {session nextSession : Session R}
    (resumes : Resumes session call nextSession next) : next.request = call.request := by
  cases resumes with
  | finish waits =>
      unfold afterFlush
      split <;> rfl
  | abandon waits =>
      unfold afterFailedFlush
      split <;> rfl
  | _ => rfl

/-- No step but an arrival changes the requests of the calls. -/
theorem serviceMachine_requests {service next : Service R} {label : ServiceLabel R}
    (goes : label.continues = true) (stepped : (serviceMachine R).step service label = some next) :
    next.calls.map Call.request = service.calls.map Call.request := by
  cases label with
  | request request => cases goes
  | load =>
      obtain ⟨_, ⟨content, _, same⟩ | ⟨error, _, same⟩⟩ := Service.load_cases stepped
      · rw [same]
      · rw [same, List.map_map]
        apply List.map_congr_left
        intro call _
        dsimp only [Function.comp, Call.failOpen]
        split <;> rfl
  | resume index =>
      obtain ⟨front, call, back, session, after, _, split, resumes, rfl⟩ :=
        Service.resume_cases stepped
      simp [split, resumes.request]
  | session label =>
      obtain ⟨site, moved, rfl⟩ := Option.map_eq_some_iff.mp stepped
      dsimp only [Service.hear]
      generalize site.session.events.drop service.site.session.events.length = emitted
      generalize service.calls = calls
      induction emitted generalizing calls with
      | nil => rfl
      | cons event events ih =>
          rw [List.foldl_cons, ih, List.map_map]
          apply List.map_congr_left
          intro call _
          dsimp only [Function.comp, Call.hear]
          split <;> rfl

instance (service : Service R) (label : ServiceLabel R) : Decidable (Interferes service label) :=
  match label with
  | .request _ | .load => inferInstanceAs (Decidable False)
  | .resume index => inferInstanceAs (Decidable (service.calls[index]?.map Call.task =
      some .opening ∧ ∃ other ∈ service.calls, other.isPositioned = true))
  | .session (.persist io) => inferInstanceAs (Decidable (service.site.session.Overtakes io))
  | .session (.update _ _) | .session (.edit _ _) | .session .retry | .session .startCheck
  | .session (.check _) | .session (.external _) => inferInstanceAs (Decidable False)

namespace Replica

/-- A note that has not been opened. -/
def coldService (content : JsString) : Service replicaRuntime :=
  ⟨⟨Session.fresh replicaRuntime [110] [110] (some [115]) none, (openedSite content).disk⟩, []⟩

/-- A note and two appends that wait for its open. -/
def twoAppends (site : Site replicaRuntime) : Service replicaRuntime :=
  ⟨site, [⟨(Addition.append [98]).request none, .opening, none⟩,
    ⟨(Addition.append [99]).request none, .opening, none⟩]⟩

theorem onlyAdditions_append (content : JsString) (filled : content ≠ []) :
    OnlyAdditions (.request ((Addition.append content).request none) :
      ServiceLabel replicaRuntime) :=
  ⟨.append content, none, filled, rfl⟩

/-- The steps of two persist iterations in one loop, and of the calls that wait
for it. -/
def persistAndReturn : List (ServiceLabel replicaRuntime) :=
  List.replicate 13 (.session (.persist .ok)) ++ [.resume 0, .resume 0, .resume 1, .resume 1]

/-- The text and the stages of the calls. -/
def outcome (service : Service replicaRuntime) : JsString × List CallTask :=
  (service.site.shownContent, service.calls.map Call.task)

end Replica

/-- Two appends compute their text from the same document; both return, and the
first addition is gone. -/
theorem append_lost :
    ∃ labels target, (serviceMachine replicaRuntime).Run (fun _ label => OnlyAdditions label)
        (Replica.openedService [97]) labels target ∧
      ¬ NoLostAddition (Replica.openedService [97]).site.shownContent target := by
  obtain ⟨target, run, seen⟩ : ∃ target, (serviceMachine replicaRuntime).Run
      (fun _ label => label.continues = true) (Replica.twoAppends (Replica.openedSite [97]))
      ([.resume 0, .resume 1, .resume 0, .resume 1] ++ Replica.persistAndReturn) target ∧
      Replica.outcome target = ([97, 99], [.returned [97, 99] (some [1, 1, 1, 0]),
        .returned [97, 99] (some [1, 1, 1, 0])]) :=
    Machine.evaluate_view (by decide +kernel)
  have keep : ∀ (service : Service replicaRuntime) label next, label.continues = true →
      (serviceMachine replicaRuntime).step service label = some next →
      service.calls.map Call.request =
        (Replica.twoAppends (Replica.openedSite [97])).calls.map Call.request →
      next.calls.map Call.request =
        (Replica.twoAppends (Replica.openedSite [97])).calls.map Call.request :=
    fun service label next goes stepped same => (serviceMachine_requests goes stepped).trans same
  have requests := run.invariant keep rfl
  obtain ⟨text, tasks⟩ := Prod.mk.inj seen
  refine ⟨_, target, .cons (Replica.onlyAdditions_append [98] (by simp)) rfl
    (.cons (Replica.onlyAdditions_append [99] (by simp)) rfl
      (run.mono fun _ _ goes => ServiceLabel.onlyAdditions_of_continues goes)), ?_⟩
  intro kept
  have returned : ∀ call ∈ target.calls, ∃ content baseline,
      call.task = .returned content baseline := by
    intro call listed
    have task := List.mem_map_of_mem (f := Call.task) listed
    rw [tasks] at task
    simp only [List.mem_cons, List.not_mem_nil, or_false, or_self] at task
    exact ⟨_, _, task⟩
  obtain ⟨order, perm, result⟩ := kept returned
  rw [requests] at perm
  have single : ∀ request ∈ order, ∀ text, (request.splice text).length = text.length + 1 := by
    intro request listed text
    rcases List.mem_cons.mp (perm.mem_iff.mp listed) with rfl | listed
    · simp [Request.splice, Addition.request, Addition.apply, appendContent, lfNormalize,
        replaceCrLf, replaceCr]
    · obtain rfl := List.mem_singleton.mp listed
      simp [Request.splice, Addition.request, Addition.apply, appendContent, lfNormalize,
        replaceCrLf, replaceCr]
  have longer := length_foldl_splice order (Replica.openedService [97]).site.shownContent single
  rw [← result, perm.length_eq, text] at longer
  revert longer
  decide

/-- Two appends on a cold note, the second of which computes its text after the
first has applied its own. -/
theorem no_lost_append_cold :
    ∃ labels target, (serviceMachine replicaRuntime).Run
        (fun service label => OnlyAdditions label ∧ ¬ Interferes service label)
        (Replica.coldService [97]) labels target ∧
      target.site.shownContent = [97, 98, 99] ∧
      NoLostAddition (Replica.coldService [97]).site.shownContent target := by
  obtain ⟨target, run, seen⟩ : ∃ target, (serviceMachine replicaRuntime).Run
      (fun service label => label.continues = true ∧ ¬ Interferes service label)
      (Replica.twoAppends (Replica.coldService [97]).site)
      ([.load, .resume 0, .resume 0, .resume 1, .resume 1] ++ Replica.persistAndReturn) target ∧
      target.site.shownContent = [97, 98, 99] :=
    Machine.evaluate_view (by decide +kernel)
  have whole : (serviceMachine replicaRuntime).Run
      (fun service label => OnlyAdditions label ∧ ¬ Interferes service label)
      (Replica.coldService [97]) (_ :: _ :: _) target :=
    .cons ⟨Replica.onlyAdditions_append [98] (by simp), id⟩ rfl
      (.cons ⟨Replica.onlyAdditions_append [99] (by simp), id⟩ rfl
        (run.mono fun _ _ goes => ⟨ServiceLabel.onlyAdditions_of_continues goes.1, goes.2⟩))
  exact ⟨_, target, whole, seen, no_lost_append rfl (.inr (Session.cold_fresh _ _ _ _)) whole⟩

end Kb1Daemon
