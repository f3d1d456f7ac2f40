import Kb1Daemon.Foundation.Machine
import Kb1Daemon.Foundation.JsString
import Kb1Daemon.Foundation.Table
import Mathlib.Data.Rat.Defs

/-! # The tree watcher

While anyone listens to the vault's events, its tree is read every two seconds and compared
with the tree that was read before; what differs is reported. A poll that is still reading
when the last listener leaves goes on, and may complete among the polls of the next
period. As long as no poll replaces a tree that was read after it began, no difference
between two polls of a period goes unreported (`tree_watch_misses_nothing`).
-/

namespace Kb1Daemon

inductive EntryKind where
  | file
  | folder
  deriving DecidableEq, Repr

/-- An entry of the tree, with what the watcher looks at. -/
structure VaultEntry where
  path : JsString
  kind : EntryKind
  size : Nat
  mtimeMs : ℚ
  watchCtimeMs : Option ℚ
  watchIno : Option Nat
  metadata : Option (Option JsString)
  deriving DecidableEq

/-- What the watcher remembers of an entry; its JSON text stands for these fields. -/
structure EntryState where
  kind : EntryKind
  file : Option (Nat × ℚ × Option ℚ × Option Nat)
  metadata : Option (Option JsString)
  deriving DecidableEq

abbrev TreeSnapshot := Table JsString EntryState

def treeSnapshot (entries : List VaultEntry) : TreeSnapshot :=
  entries.foldl (fun snapshot entry => snapshot.set entry.path
    { kind := entry.kind
      file := if entry.kind = .file then
          some (entry.size, entry.mtimeMs, entry.watchCtimeMs, entry.watchIno)
        else none
      metadata := entry.metadata }) .empty

def changedTreeSnapshotPaths (previous next : TreeSnapshot) : List JsString :=
  (previous.entries.map Prod.fst ++ next.entries.map Prod.fst).eraseDups.filter fun path =>
    previous.get path ≠ next.get path

/-- A poll under way, with the period of subscription it began in and the number of polls
that had completed by then. `result` is what it read, once it has: nothing, if that failed. -/
structure TreePoll where
  period : Nat
  startedAt : Nat
  knownPathsAtPollStart : List JsString
  result : Option (Option (List VaultEntry))
  deriving DecidableEq

/-- A poll that completed, with the period it completed in, the tree it read, the paths of
the events it emitted, where the empty path is the whole vault, and who listened. -/
structure CompletedPoll where
  period : Nat
  startedAt : Nat
  completedIn : Nat
  snapshot : TreeSnapshot
  emitted : List JsString
  eventHandlers : List Nat
  deriving DecidableEq

/-- The watcher. `period` counts the beginnings and ends of the periods in which somebody
listens; `completed` are the polls that completed, oldest first. -/
structure TreeWatch where
  eventHandlers : List Nat
  treeWatchTimer : Bool
  treeWatchSnapshot : Option TreeSnapshot
  treeWatchInFlight : Bool
  treeWatchKnownPaths : List JsString
  polls : List TreePoll
  period : Nat
  completed : List CompletedPoll

inductive TreeWatchLabel where
  | onEvent (handler : Nat)
  | release (handler : Nat)
  | tick
  /-- A known change of these paths is emitted. -/
  | known (paths : List JsString)
  /-- A poll has read the tree, which may fail. -/
  | read (index : Nat) (result : Option (List VaultEntry))
  | complete (index : Nat)
  deriving DecidableEq

namespace TreeWatch

def new : TreeWatch := ⟨[], false, none, false, [], [], 0, []⟩

/-- The first steps of a poll, up to the reading of the tree. -/
def startPoll (watch : TreeWatch) : TreeWatch :=
  if watch.treeWatchInFlight then watch
  else
    { watch with
      treeWatchInFlight := true
      polls := watch.polls ++
        [⟨watch.period, watch.completed.length, watch.treeWatchKnownPaths, none⟩] }

def ensureTreeWatch (watch : TreeWatch) : TreeWatch :=
  if watch.treeWatchTimer then watch
  else
    { startPoll { watch with
        treeWatchSnapshot := none
        treeWatchKnownPaths := []
        period := watch.period + 1 } with
      treeWatchTimer := true }

def releaseTreeWatch (watch : TreeWatch) : TreeWatch :=
  if watch.treeWatchTimer then
    { watch with
      treeWatchTimer := false
      treeWatchSnapshot := none
      treeWatchKnownPaths := []
      treeWatchInFlight := false
      period := watch.period + 1 }
  else watch

/-- The paths of the events that a poll emits for changed paths. -/
def reported (poll : TreePoll) (changedPaths : List JsString) : List JsString :=
  if changedPaths.isEmpty then []
  else if changedPaths.all fun path => path ∈ poll.knownPathsAtPollStart then changedPaths
  else [[]]

/-- The paths that changed since the remembered tree was read. -/
def changedPaths (watch : TreeWatch) (next : TreeSnapshot) : List JsString :=
  match watch.treeWatchSnapshot with
  | none => []
  | some previous => changedTreeSnapshotPaths previous next

/-- The tree to remember: one without changes is not replaced. -/
def remembered (watch : TreeWatch) (next : TreeSnapshot) : TreeSnapshot :=
  match watch.treeWatchSnapshot with
  | none => next
  | some previous => if (changedTreeSnapshotPaths previous next).isEmpty then previous else next

/-- The last steps of a poll that read entries. -/
def succeed (watch : TreeWatch) (poll : TreePoll) (entries : List VaultEntry) : TreeWatch :=
  { watch with
    treeWatchSnapshot := some (watch.remembered (treeSnapshot entries))
    completed := watch.completed ++
      [⟨poll.period, poll.startedAt, watch.period, treeSnapshot entries,
        reported poll (watch.changedPaths (treeSnapshot entries)), watch.eventHandlers⟩] }

/-- What every poll does at its end. -/
def finish (watch : TreeWatch) (index : Nat) (poll : TreePoll) : TreeWatch :=
  { watch with
    treeWatchKnownPaths := watch.treeWatchKnownPaths.filter fun path =>
      path ∉ poll.knownPathsAtPollStart
    treeWatchInFlight := false
    polls := watch.polls.eraseIdx index }

end TreeWatch

/-- The tree watcher as a machine. -/
def treeWatchMachine : Machine TreeWatch TreeWatchLabel where
  step watch
    | .onEvent handler =>
        some ({ watch with
          eventHandlers := if handler ∈ watch.eventHandlers then watch.eventHandlers
            else watch.eventHandlers ++ [handler] } : TreeWatch).ensureTreeWatch
    | .release handler =>
        let left : TreeWatch := { watch with eventHandlers := watch.eventHandlers.erase handler }
        some (if left.eventHandlers.isEmpty then left.releaseTreeWatch else left)
    | .tick => if watch.treeWatchTimer then some watch.startPoll else none
    | .known paths =>
        some (if watch.eventHandlers.isEmpty then watch
          else { watch with treeWatchKnownPaths := watch.treeWatchKnownPaths ++ paths })
    | .read index result =>
        match watch.polls[index]? with
        | some ⟨period, startedAt, known, none⟩ =>
            some { watch with polls := watch.polls.set index ⟨period, startedAt, known, some result⟩ }
        | _ => none
    | .complete index =>
        match watch.polls[index]? with
        | some ⟨period, startedAt, known, some result⟩ =>
            let poll : TreePoll := ⟨period, startedAt, known, some result⟩
            match result with
            | none => some (watch.finish index poll)
            | some entries => some ((watch.succeed poll entries).finish index poll)
        | _ => none

/-- A poll reports a path, or the whole vault. -/
def CompletedPoll.Covers (poll : CompletedPoll) (path : JsString) : Prop :=
  path ∈ poll.emitted ∨ [] ∈ poll.emitted

/-- A poll of a period that completed in it. -/
def CompletedPoll.Within (poll : CompletedPoll) (period : Nat) : Prop :=
  poll.period = period ∧ poll.completedIn = period

namespace TreeWatch

/-- A poll of a period that began after the poll with the number `i` completed, and
completed no later than the one with the number `j`, finds a value of a path, and reports
the path to those who listen. -/
def Reports (watch : TreeWatch) (period i j : Nat) (path : JsString)
    (value : Option EntryState) : Prop :=
  ∃ k poll, watch.completed[k]? = some poll ∧ k ≤ j ∧ poll.Within period ∧ i < poll.startedAt ∧
    poll.snapshot.get path = value ∧ poll.Covers path ∧ poll.eventHandlers ≠ []

/-- For two polls of one period, the second begun after the first one completed, every path
whose value differs between their trees is reported from a reading that finds the value
that the second one finds. -/
def MissesNothing (watch : TreeWatch) : Prop :=
  ∀ period i j first second, watch.completed[i]? = some first →
    watch.completed[j]? = some second → CompletedPoll.Within first period →
      CompletedPoll.Within second period → i < second.startedAt →
        ∀ path, first.snapshot.get path ≠ second.snapshot.get path →
          watch.Reports period i j path (second.snapshot.get path)

/-- A poll that completes and replaces the remembered tree by another one began after every
poll of the present period completed. -/
def InOrder (watch : TreeWatch) : TreeWatchLabel → Prop
  | .complete index =>
      match watch.polls[index]? with
      | some ⟨_, startedAt, _, some (some entries)⟩ =>
          watch.changedPaths (treeSnapshot entries) ≠ [] →
            ∀ completed ∈ watch.completed.drop startedAt, ¬ completed.Within watch.period
      | _ => True
  | _ => True

instance (poll : CompletedPoll) (period : Nat) : Decidable (poll.Within period) :=
  inferInstanceAs (Decidable (_ ∧ _))

instance (watch : TreeWatch) (label : TreeWatchLabel) : Decidable (watch.InOrder label) := by
  unfold InOrder
  cases label with
  | complete index =>
      dsimp only
      split <;> infer_instance
  | _ => exact .isTrue trivial

/-- A path whose value differs is among the changed ones. -/
theorem mem_changedTreeSnapshotPaths {previous next : TreeSnapshot} {path : JsString} :
    path ∈ changedTreeSnapshotPaths previous next ↔ previous.get path ≠ next.get path := by
  have key : ∀ {snapshot : TreeSnapshot} {value : EntryState}, snapshot.get path = some value →
      path ∈ snapshot.entries.map Prod.fst :=
    fun found => List.mem_map.mpr ⟨_, Table.holds_of_get found, rfl⟩
  unfold changedTreeSnapshotPaths
  rw [List.mem_filter, List.mem_eraseDups, List.mem_append, decide_eq_true_iff]
  constructor
  · exact And.right
  · intro differs
    refine ⟨?_, differs⟩
    cases before : previous.get path with
    | some value => exact .inl (key before)
    | none =>
        cases after : next.get path with
        | some value => exact .inr (key after)
        | none => exact absurd (before.trans after.symm) differs

/-- A changed path is reported, itself or with the whole vault. -/
theorem mem_reported {poll : TreePoll} {changedPaths : List JsString} {path : JsString}
    (changed : path ∈ changedPaths) :
    path ∈ reported poll changedPaths ∨ [] ∈ reported poll changedPaths := by
  unfold reported
  rw [if_neg (by simpa using List.ne_nil_of_mem changed)]
  split
  · exact .inl changed
  · exact .inr (List.mem_singleton_self _)

/-- What is remembered after a poll agrees with what it read. -/
theorem get_remembered (watch : TreeWatch) (next : TreeSnapshot) (path : JsString) :
    (watch.remembered next).get path = next.get path := by
  unfold remembered
  cases watch.treeWatchSnapshot with
  | none => rfl
  | some previous =>
      dsimp only
      split
      · rename_i same
        by_contra differs
        have listed := mem_changedTreeSnapshotPaths.mpr differs
        rw [List.isEmpty_iff.mp same] at listed
        cases listed
      · rfl

/-- Polls that completed are numbered, and the remembered tree is the one of the last
change that was reported. -/
structure Watched (watch : TreeWatch) : Prop where
  listened : watch.treeWatchTimer = true → watch.eventHandlers ≠ []
  counted : ∀ poll ∈ watch.polls, poll.startedAt ≤ watch.completed.length
  ordered : ∀ (i : Nat) (poll : CompletedPoll), watch.completed[i]? = some poll →
    poll.startedAt ≤ i
  begun : ∀ poll ∈ watch.polls, poll.period ≤ watch.period
  ended : ∀ poll ∈ watch.completed, poll.completedIn ≤ watch.period
  timed : ∀ poll ∈ watch.polls, poll.period = watch.period → watch.treeWatchTimer = true
  older : ∀ poll ∈ watch.polls, poll.period ≠ watch.period →
    ∀ (i : Nat) (completed : CompletedPoll), watch.completed[i]? = some completed →
      completed.completedIn = watch.period → poll.startedAt ≤ i
  tracked : ∀ (i : Nat) (first : CompletedPoll), watch.completed[i]? = some first →
    first.Within watch.period → ∃ current, watch.treeWatchSnapshot = some current ∧
      ∀ path, first.snapshot.get path ≠ current.get path →
        watch.Reports watch.period i watch.completed.length path (current.get path)
  missesNothing : watch.MissesNothing

variable {watch next : TreeWatch}

/-- A step that completes no poll keeps the account, if its polls are the old ones or begin
now. -/
theorem Watched.of_polls (watched : watch.Watched) (completed : next.completed = watch.completed)
    (period : next.period = watch.period)
    (snapshot : next.treeWatchSnapshot = watch.treeWatchSnapshot)
    (timer : next.treeWatchTimer = watch.treeWatchTimer)
    (listened : next.treeWatchTimer = true → next.eventHandlers ≠ [])
    (polls : ∀ poll ∈ next.polls,
      (∃ old ∈ watch.polls, old.period = poll.period ∧ old.startedAt = poll.startedAt) ∨
        poll.period = watch.period ∧ poll.startedAt = watch.completed.length ∧
          watch.treeWatchTimer = true) : next.Watched where
  listened := listened
  counted := by
    intro poll member
    rw [completed]
    rcases polls poll member with ⟨old, listed, _, same⟩ | ⟨_, now, _⟩
    · exact same ▸ watched.counted old listed
    · exact Nat.le_of_eq now
  ordered := by
    rw [completed]
    exact watched.ordered
  begun := by
    intro poll member
    rw [period]
    rcases polls poll member with ⟨old, listed, same, _⟩ | ⟨now, _⟩
    · exact same ▸ watched.begun old listed
    · exact Nat.le_of_eq now
  ended := by
    rw [completed, period]
    exact watched.ended
  timed := by
    intro poll member present
    rw [timer]
    rw [period] at present
    rcases polls poll member with ⟨old, listed, same, _⟩ | ⟨_, _, on⟩
    · exact watched.timed old listed (same.trans present)
    · exact on
  older := by
    intro poll member past
    rw [completed, period]
    rw [period] at past
    rcases polls poll member with ⟨old, listed, same, start⟩ | ⟨now, _⟩
    · exact start ▸ watched.older old listed (same ▸ past)
    · exact absurd now past
  tracked := by
    unfold Reports
    rw [completed, period, snapshot]
    exact watched.tracked
  missesNothing := by
    unfold MissesNothing Reports
    rw [completed]
    exact watched.missesNothing

/-- The beginning or the end of a period forgets the remembered tree. -/
theorem Watched.of_period (watched : watch.Watched) (completed : next.completed = watch.completed)
    (period : next.period = watch.period + 1) (polls : next.polls = watch.polls)
    (listened : next.treeWatchTimer = true → next.eventHandlers ≠ []) : next.Watched := by
  have apart : ∀ poll ∈ next.polls, poll.period < next.period := by
    intro poll member
    rw [polls] at member
    rw [period]
    exact Nat.lt_succ_of_le (watched.begun poll member)
  have earlier : ∀ poll ∈ next.completed, poll.completedIn < next.period := by
    intro poll member
    rw [completed] at member
    rw [period]
    exact Nat.lt_succ_of_le (watched.ended poll member)
  refine ⟨listened, ?_, ?_, fun poll member => Nat.le_of_lt (apart poll member),
    fun poll member => Nat.le_of_lt (earlier poll member),
    fun poll member same => absurd same (Nat.ne_of_lt (apart poll member)), ?_, ?_, ?_⟩
  · rw [polls, completed]
    exact watched.counted
  · rw [completed]
    exact watched.ordered
  · intro poll member _ i done listed present
    exact absurd present (Nat.ne_of_lt (earlier done (List.mem_of_getElem? listed)))
  · intro i first listed within
    exact absurd within.2 (Nat.ne_of_lt (earlier first (List.mem_of_getElem? listed)))
  · unfold MissesNothing Reports
    rw [completed]
    exact watched.missesNothing

theorem watched_startPoll (watched : watch.Watched) (on : watch.treeWatchTimer = true) :
    watch.startPoll.Watched := by
  unfold startPoll
  split
  · exact watched
  · refine watched.of_polls rfl rfl rfl rfl watched.listened fun poll member => ?_
    rcases List.mem_append.mp member with old | new
    · exact .inl ⟨poll, old, rfl, rfl⟩
    · rw [List.mem_singleton.mp new]
      exact .inr ⟨rfl, rfl, on⟩

theorem watched_ensureTreeWatch (watched : watch.Watched) (heard : watch.eventHandlers ≠ []) :
    watch.ensureTreeWatch.Watched := by
  unfold ensureTreeWatch
  split
  · exact watched
  · have begun : Watched { watch with
        treeWatchTimer := true
        treeWatchSnapshot := none
        treeWatchKnownPaths := []
        period := watch.period + 1 } := watched.of_period rfl rfl rfl fun _ => heard
    have started := watched_startPoll begun rfl
    unfold startPoll at started ⊢
    dsimp only at started ⊢
    split at started
    · rename_i busy
      rw [if_pos busy]
      exact started
    · rename_i free
      rw [if_neg free]
      exact started

theorem watched_finish (watched : watch.Watched) (index : Nat) (poll : TreePoll) :
    (watch.finish index poll).Watched := by
  refine watched.of_polls rfl rfl rfl rfl watched.listened fun other member => ?_
  exact .inl ⟨other, List.mem_of_mem_eraseIdx member, rfl, rfl⟩

theorem Reports.mono {period i j last : Nat} {path : JsString} {value : Option EntryState}
    (reports : watch.Reports period i j path value) (later : j ≤ last)
    (grown : watch.completed <+: next.completed) : next.Reports period i last path value := by
  obtain ⟨k, poll, listed, before, facts⟩ := reports
  obtain ⟨rest, same⟩ := grown
  refine ⟨k, poll, ?_, before.trans later, facts⟩
  rw [← same, List.getElem?_append_left (List.getElem?_eq_some_iff.mp listed).1]
  exact listed

/-- A poll that reads the tree, and replaces the remembered tree in order, keeps the
account. -/
theorem watched_succeed (watched : watch.Watched) {poll : TreePoll} (member : poll ∈ watch.polls)
    {entries : List VaultEntry}
    (inOrder : watch.changedPaths (treeSnapshot entries) ≠ [] →
      ∀ completed ∈ watch.completed.drop poll.startedAt, ¬ completed.Within watch.period) :
    (watch.succeed poll entries).Watched := by
  let done : CompletedPoll := ⟨poll.period, poll.startedAt, watch.period, treeSnapshot entries,
    reported poll (watch.changedPaths (treeSnapshot entries)), watch.eventHandlers⟩
  have completed : (watch.succeed poll entries).completed = watch.completed ++ [done] := rfl
  have grown : watch.completed <+: (watch.succeed poll entries).completed :=
    completed ▸ List.prefix_append _ _
  have last : (watch.succeed poll entries).completed[watch.completed.length]? = some done := by
    rw [completed, List.getElem?_concat_length]
  have split : ∀ {i : Nat} {other : CompletedPoll},
      (watch.succeed poll entries).completed[i]? = some other →
        watch.completed[i]? = some other ∨ i = watch.completed.length ∧ other = done := by
    intro i other listed
    rw [completed, List.getElem?_append] at listed
    split at listed
    · exact .inl listed
    · have here : i - watch.completed.length = 0 := by
        by_contra beyond
        rw [List.getElem?_eq_none (by simp; omega)] at listed
        cases listed
      rw [here] at listed
      exact .inr ⟨by omega, (Option.some.inj listed).symm⟩
  -- A path that differs from an earlier poll of the period is reported now, or was before.
  have tracked : ∀ (i : Nat) (first : CompletedPoll), watch.completed[i]? = some first →
      first.Within watch.period → ∀ path,
        first.snapshot.get path ≠ (treeSnapshot entries).get path →
          (watch.succeed poll entries).Reports watch.period i watch.completed.length path
            ((treeSnapshot entries).get path) := by
    intro i first listed within path differs
    obtain ⟨current, remembers, found⟩ := watched.tracked i first listed within
    by_cases same : current.get path = (treeSnapshot entries).get path
    · rw [← same] at differs ⊢
      exact (found path differs).mono (Nat.le_refl _) grown
    · have changed : path ∈ watch.changedPaths (treeSnapshot entries) := by
        unfold changedPaths
        rw [remembers]
        exact mem_changedTreeSnapshotPaths.mpr same
      have after : i < poll.startedAt := by
        by_contra before
        refine inOrder (List.ne_nil_of_mem changed) first ?_ within
        apply List.mem_of_getElem?
        · rw [List.getElem?_drop, Nat.add_sub_cancel' (Nat.le_of_not_lt before)]
          exact listed
      have present : poll.period = watch.period := by
        by_contra past
        have bound := watched.older poll member past i first listed within.2
        omega
      exact ⟨_, done, last, Nat.le_refl _, ⟨present, rfl⟩, after, rfl, mem_reported changed,
        watched.listened (watched.timed poll member present)⟩
  constructor
  · exact watched.listened
  · intro other listed
    rw [completed, List.length_append]
    exact Nat.le_succ_of_le (watched.counted other listed)
  · intro i other listed
    rcases split listed with old | ⟨rfl, rfl⟩
    · exact watched.ordered i other old
    · exact watched.counted poll member
  · exact watched.begun
  · intro other listed
    rw [completed] at listed
    rcases List.mem_append.mp listed with old | new
    · exact watched.ended other old
    · rw [List.mem_singleton.mp new]
      exact Nat.le_refl _
  · exact watched.timed
  · intro other listed past i first found present
    rcases split found with old | ⟨rfl, rfl⟩
    · exact watched.older other listed past i first old present
    · exact watched.counted other listed
  · intro i first listed within
    refine ⟨_, rfl, fun path differs => ?_⟩
    rw [get_remembered] at differs ⊢
    rcases split listed with old | ⟨rfl, rfl⟩
    · obtain ⟨k, other, found, before, facts⟩ := tracked i first old within path differs
      refine ⟨k, other, found, ?_, facts⟩
      rw [completed, List.length_append]
      exact Nat.le_succ_of_le before
    · exact absurd rfl differs
  · intro period i j first second atFirst atSecond within inPeriod after path differs
    rcases split atSecond with old | ⟨rfl, rfl⟩
    · rcases split atFirst with first_old | ⟨rfl, _⟩
      · exact (watched.missesNothing period i j first second first_old old within inPeriod after
          path differs).mono (Nat.le_refl _) grown
      · have bound := watched.ordered j second old
        have inside := (List.getElem?_eq_some_iff.mp old).1
        omega
    · rcases split atFirst with old | ⟨rfl, rfl⟩
      · obtain rfl := inPeriod.2
        exact tracked i first old within path differs
      · exact absurd rfl differs

/-- Every step in order keeps the account. -/
theorem watched_step {label : TreeWatchLabel} (watched : watch.Watched)
    (inOrder : watch.InOrder label) (stepped : treeWatchMachine.step watch label = some next) :
    next.Watched := by
  cases label with
  | onEvent handler =>
      obtain rfl := Option.some.inj stepped
      have heard : (if handler ∈ watch.eventHandlers then watch.eventHandlers
          else watch.eventHandlers ++ [handler]) ≠ [] := by
        split
        · rename_i listed
          exact List.ne_nil_of_mem listed
        · simp
      refine watched_ensureTreeWatch ?_ heard
      exact watched.of_polls rfl rfl rfl rfl (fun _ => heard) fun poll member =>
        .inl ⟨poll, member, rfl, rfl⟩
  | release handler =>
      obtain rfl := Option.some.inj stepped
      dsimp only
      by_cases left : (watch.eventHandlers.erase handler).isEmpty = true
      · rw [if_pos left]
        unfold releaseTreeWatch
        split
        · exact watched.of_period rfl rfl rfl nofun
        · rename_i off
          exact watched.of_polls rfl rfl rfl rfl (fun on => absurd on off) fun poll member =>
            .inl ⟨poll, member, rfl, rfl⟩
      · rw [if_neg left]
        refine watched.of_polls rfl rfl rfl rfl (fun _ nobody => left ?_) fun poll member =>
          .inl ⟨poll, member, rfl, rfl⟩
        exact List.isEmpty_iff.mpr nobody
  | tick =>
      simp only [treeWatchMachine] at stepped
      split at stepped
      · rename_i on
        obtain rfl := Option.some.inj stepped
        exact watched_startPoll watched on
      · cases stepped
  | known paths =>
      obtain rfl := Option.some.inj stepped
      split
      · exact watched
      · exact watched.of_polls rfl rfl rfl rfl watched.listened fun poll member =>
          .inl ⟨poll, member, rfl, rfl⟩
  | read index result =>
      simp only [treeWatchMachine] at stepped
      split at stepped
      · rename_i period startedAt known found
        obtain rfl := Option.some.inj stepped
        refine watched.of_polls rfl rfl rfl rfl watched.listened fun poll member => .inl ?_
        rcases List.mem_or_eq_of_mem_set member with old | rfl
        · exact ⟨poll, old, rfl, rfl⟩
        · exact ⟨_, List.mem_of_getElem? found, rfl, rfl⟩
      · cases stepped
  | complete index =>
      unfold InOrder at inOrder
      simp only [treeWatchMachine] at stepped
      split at stepped
      · rename_i period startedAt known result found
        split at stepped
        · obtain rfl := Option.some.inj stepped
          exact watched_finish watched index _
        · rename_i entries
          obtain rfl := Option.some.inj stepped
          simp only [found] at inOrder
          exact watched_finish (watched_succeed watched (List.mem_of_getElem? found) inOrder) index _
      · cases stepped

theorem watched_new : new.Watched where
  listened := nofun
  counted := nofun
  ordered := nofun
  begun := nofun
  ended := nofun
  timed := nofun
  older := nofun
  tracked := nofun
  missesNothing := nofun

end TreeWatch

/-- **The tree watcher misses nothing** in any run whose polls replace the remembered tree
in order. -/
theorem tree_watch_misses_nothing {labels : List TreeWatchLabel} {watch : TreeWatch}
    (run : treeWatchMachine.Run TreeWatch.InOrder .new labels watch) : watch.MissesNothing :=
  (run.invariant (fun _ _ _ allowed stepped watched =>
    TreeWatch.watched_step watched allowed stepped) TreeWatch.watched_new).missesNothing

/-- A note in the tree. -/
def noteInTree (size : Nat) : VaultEntry := ⟨units "a.md", .file, size, 0, some 0, some 1, none⟩

/-- A poll of an earlier period, which read the tree before a note was made, completes after
the first poll of the present period, which found the note. The note is deleted, and no
event tells. -/
theorem deletion_missed :
    ∃ watch, treeWatchMachine.Run (fun _ _ => True) .new
        [.onEvent 0, .read 0 (some []), .release 0, .onEvent 1, .read 1 (some [noteInTree 1]),
          .complete 1, .complete 0, .tick, .read 0 (some []), .complete 0] watch ∧
      watch.completed =
        [⟨3, 0, 3, treeSnapshot [noteInTree 1], [], [1]⟩, ⟨1, 0, 3, treeSnapshot [], [[]], [1]⟩,
          ⟨3, 2, 3, treeSnapshot [], [], [1]⟩] ∧
      ¬ watch.MissesNothing := by
  obtain ⟨watch, run, seen⟩ : ∃ watch, treeWatchMachine.Run (fun _ _ => True) .new
        [.onEvent 0, .read 0 (some []), .release 0, .onEvent 1, .read 1 (some [noteInTree 1]),
          .complete 1, .complete 0, .tick, .read 0 (some []), .complete 0] watch ∧
      watch.completed =
        [⟨3, 0, 3, treeSnapshot [noteInTree 1], [], [1]⟩, ⟨1, 0, 3, treeSnapshot [], [[]], [1]⟩,
          ⟨3, 2, 3, treeSnapshot [], [], [1]⟩] :=
    Machine.evaluate_view (by decide +kernel)
  refine ⟨watch, run, seen, fun misses => ?_⟩
  have first : watch.completed[0]? = some ⟨3, 0, 3, treeSnapshot [noteInTree 1], [], [1]⟩ := by
    rw [seen]
    rfl
  have second : watch.completed[2]? = some ⟨3, 2, 3, treeSnapshot [], [], [1]⟩ := by
    rw [seen]
    rfl
  obtain ⟨k, poll, listed, _, within, _, _, covers, _⟩ :=
    misses 3 0 2 _ _ first second ⟨rfl, rfl⟩ ⟨rfl, rfl⟩ (by decide) (units "a.md")
      (by decide +kernel)
  have silent : ∀ poll ∈ watch.completed, poll.period = 3 → poll.emitted = [] := by
    rw [seen]
    decide +kernel
  unfold CompletedPoll.Covers at covers
  rw [silent poll (List.mem_of_getElem? listed) within.1] at covers
  rcases covers with own | whole
  · cases own
  · cases whole

/-- A stale poll completes before the first one of the present period; then a note is
edited. -/
theorem edit_reported :
    ∃ watch, treeWatchMachine.Run TreeWatch.InOrder .new
        [.onEvent 0, .read 0 (some []), .release 0, .onEvent 1, .complete 0, .known [units "a.md"],
          .read 0 (some [noteInTree 1]), .complete 0, .tick, .read 0 (some [noteInTree 2]),
          .complete 0] watch ∧
      (watch.completed.map fun poll => poll.emitted) = [[], [[]], [units "a.md"]] ∧
      watch.MissesNothing := by
  obtain ⟨watch, run, seen⟩ : ∃ watch, treeWatchMachine.Run TreeWatch.InOrder .new
        [.onEvent 0, .read 0 (some []), .release 0, .onEvent 1, .complete 0, .known [units "a.md"],
          .read 0 (some [noteInTree 1]), .complete 0, .tick, .read 0 (some [noteInTree 2]),
          .complete 0] watch ∧
      (watch.completed.map fun poll => poll.emitted) = [[], [[]], [units "a.md"]] :=
    Machine.evaluate_view (by decide +kernel)
  exact ⟨watch, run, seen, tree_watch_misses_nothing run⟩

end Kb1Daemon
