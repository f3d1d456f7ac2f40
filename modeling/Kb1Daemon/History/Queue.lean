import Kb1Daemon.Foundation.Machine
import Kb1Daemon.History.Entries

/-! # The queue of the history

Every record, flush and move of the history waits for the ones before it. The work that
runs awaits hashes, files and Git commands, any of which may fail, and finds the history
as it left it. After every step the last content recorded for a file's version in a window
is in memory or in the commit of its entry, and only what is committed leaves the memory
(`HistoryQueue.sound_step`).
-/

namespace Kb1Daemon

/-- Work on the history that waits for its turn. -/
inductive HistoryWork where
  | recordHistory (path : JsString) (operation : FileHistoryOperation) (actor : VaultActor)
      (content : JsString) (now : Option Nat)
  | flushHistory (paths : Option (List JsString))
  | carryHistoryAfterFileMove (fromPath toPath : JsString) (actor : VaultActor)
  | carryHistoryAfterFolderMove (fromPath toPath : JsString) (actor : VaultActor)
  deriving DecidableEq, Repr

/-- What the running work awaits. -/
inductive HistoryTask where
  /-- The text of a moved file. -/
  | reading (fromPath toPath : JsString) (actor : VaultActor)
  /-- The hash of a content that is recorded, for a move with the place it comes from. -/
  | hashing (input : RecordFileHistoryInput) (fromPath : Option JsString)
  /-- The commit of the first of the selected entries that are left. -/
  | committing (rest : List PendingHistoryEntry)
  /-- The commit of a moved folder. -/
  | movingFolder (fromPath toPath : JsString) (actor : VaultActor)
  deriving DecidableEq, Repr

/-- A content that was recorded for a file's version in a window, after so many commits
of such versions. -/
structure RecordedVersion where
  path : JsString
  start : Nat
  epoch : Nat
  content : JsString
  deriving DecidableEq, Repr

/-- The history with its queue and, newest first, what has been recorded. -/
structure HistoryQueue where
  history : FileHistory
  queue : List HistoryWork
  running : Option HistoryTask
  recorded : List RecordedVersion
  deriving DecidableEq, Repr

inductive HistoryLabel where
  | enqueueHistoryMutation (work : HistoryWork)
  | begin (now : Nat)
  | read (content : Option JsString) (now : Nat)
  | hashed
  | committed (committedAt : Nat)
  | committedFolder (committedAt : Nat) (touched : List JsString)
  /-- A Git command fails, Git is missing, or a moved folder has nothing to commit. -/
  | failed
  deriving DecidableEq, Repr

/-- `moveOperationForPaths`. -/
def moveOperationForPaths (fromPath toPath : JsString) : FileHistoryOperation :=
  if dirname fromPath = dirname toPath then .rename else .move

namespace FileHistory

/-- Mark the entry of a move with the place it comes from. -/
def setFromPath (history : FileHistory) (id : Nat) (toPath fromPath : JsString) : FileHistory :=
  { history with
    pending := history.pending.map fun entry =>
      if entry.path = toPath && entry.id = id then { entry with fromPath := some fromPath }
      else entry }

/-- The entry of a moved folder. -/
def folderEntry (history : FileHistory) (fromPath toPath : JsString) (actor : VaultActor)
    (now : Nat) : PendingHistoryEntry where
  id := history.nextId
  path := toPath
  fromPath := some fromPath
  operation := .move
  bucketStart := now
  createdAt := now
  updatedAt := now
  content := []
  contributors := [actor]

/-- Commit a moved folder. -/
def commitFolder (history : FileHistory) (entry : PendingHistoryEntry) (committedAt : Nat)
    (touched : List JsString) : FileHistory :=
  { history with
    commits := ⟨history.commits.length, committedAt, entry, true, touched⟩ :: history.commits
    nextId := history.nextId + 1 }

/-- The committed entries of a file's version in a window, oldest first. -/
def commitsOf (history : FileHistory) (path : JsString) (start : Nat) :
    List PendingHistoryEntry :=
  (((history.commits.filter fun commit => !commit.folder).map HistoryCommit.entry).filter
    fun entry => entry.hasKey path start).reverse

end FileHistory

namespace HistoryQueue

/-- A vault without history. -/
def new : HistoryQueue := ⟨⟨[], [], 0⟩, [], none, []⟩

/-- The running work begins to commit what it selects, if anything. -/
def startFlush (queue : HistoryQueue) (paths : Option (List JsString)) : HistoryQueue :=
  let selected := queue.history.selectPendingEntries paths
  { queue with running := if selected.isEmpty then none else some (.committing selected) }

variable (historyCoalesceWindowMs : Nat)

/-- The first steps of some work, up to what it awaits. -/
def start (queue : HistoryQueue) (work : HistoryWork) (now : Nat) : HistoryQueue :=
  match work with
  | .recordHistory path operation actor content at? =>
      if validateVaultPath path .file then
        { queue with
          running := some (.hashing
            ⟨path, operation, actor, content, at?.getD now, historyCoalesceWindowMs⟩ none) }
      else queue
  | .flushHistory paths =>
      if (paths.getD []).all fun path => validateVaultPath path .file then queue.startFlush paths
      else queue
  | .carryHistoryAfterFileMove fromPath toPath actor =>
      { queue with running := some (.reading fromPath toPath actor) }
  | .carryHistoryAfterFolderMove fromPath toPath actor =>
      if validateVaultPath fromPath .folder && validateVaultPath toPath .folder then
        { queue with running := some (.movingFolder fromPath toPath actor) }
      else queue

/-- Record a version. -/
def record (queue : HistoryQueue) (input : RecordFileHistoryInput) : HistoryQueue :=
  let start := bucketStart input.now input.coalesceWindowMs
  { queue with
    history := (queue.history.recordFileHistory input).1
    recorded := ⟨input.path, start, (queue.history.commitsOf input.path start).length,
      input.content⟩ :: queue.recorded }

/-- The end of a record: a moved file is marked and flushed. -/
def finishRecord (queue : HistoryQueue) (input : RecordFileHistoryInput)
    (fromPath : Option JsString) : HistoryQueue :=
  let entry := (queue.history.recordFileHistory input).2
  match fromPath with
  | none => { queue.record input with running := none }
  | some fromPath =>
      startFlush
        { queue.record input with
          history := (queue.record input).history.setFromPath entry.id input.path fromPath }
        (some [input.path])

/-- The last content recorded for a file's version in a window after so many commits. -/
def lastContent (queue : HistoryQueue) (path : JsString) (start epoch : Nat) :
    Option JsString :=
  (queue.recorded.find? fun version =>
    version.path = path && version.start = start && version.epoch = epoch).map
      RecordedVersion.content

end HistoryQueue

/-- The history's queue as a machine. -/
def historyMachine (historyCoalesceWindowMs : Nat) : Machine HistoryQueue HistoryLabel where
  step queue
    | .enqueueHistoryMutation work => some { queue with queue := queue.queue ++ [work] }
    | .begin now =>
        match queue.running, queue.queue with
        | none, work :: rest => 
            some (HistoryQueue.start historyCoalesceWindowMs { queue with queue := rest } work now)
        | _, _ => none
    | .read content now =>
        match queue.running, content with
        | some (.reading _ _ _), none => some { queue with running := none }
        | some (.reading fromPath toPath actor), some content =>
            if validateVaultPath fromPath .file && validateVaultPath toPath .file then
              some { queue with
                running := some (.hashing
                  ⟨toPath, moveOperationForPaths fromPath toPath, actor, content, now, 0⟩
                  (some fromPath)) }
            else some { queue with running := none }
        | _, _ => none
    | .hashed =>
        match queue.running with
        | some (.hashing input fromPath) => some (queue.finishRecord input fromPath)
        | _ => none
    | .committed committedAt =>
        match queue.running with
        | some (.committing (entry :: rest)) =>
            some { queue with
              history := queue.history.commitPendingEntry entry committedAt
              running := if rest.isEmpty then none else some (.committing rest) }
        | _ => none
    | .committedFolder committedAt touched =>
        match queue.running with
        | some (.movingFolder fromPath toPath actor) =>
            some { queue with
              history := queue.history.commitFolder
                (queue.history.folderEntry fromPath toPath actor committedAt) committedAt touched
              running := none }
        | _ => none
    | .failed =>
        match queue.running with
        | some (.committing _) | some (.movingFolder _ _ _) => some { queue with running := none }
        | _ => none

namespace FileHistory

/-- No two entries have one id, and the next id is new. -/
def Numbered (history : FileHistory) : Prop :=
  (history.entries.map PendingHistoryEntry.id).Nodup ∧
    ∀ entry ∈ history.entries, entry.id < history.nextId

theorem numbered_record {history : FileHistory} (numbered : history.Numbered)
    (input : RecordFileHistoryInput) : (history.recordFileHistory input).1.Numbered := by
  have ids : ∀ number, number ∈ history.entries.map PendingHistoryEntry.id →
      number < history.nextId := by
    intro number listed
    obtain ⟨entry, member, rfl⟩ := List.mem_map.mp listed
    exact numbered.2 entry member
  have named : ∀ {after : FileHistory}, (∀ number,
      number ∈ after.entries.map PendingHistoryEntry.id → number < after.nextId) →
      ∀ entry ∈ after.entries, entry.id < after.nextId :=
    fun bound entry member => bound _ (List.mem_map_of_mem member)
  have listed := numbered.1
  unfold entries at listed ids
  rw [List.map_append] at listed ids
  rcases ids_record history input with ⟨same, next⟩ | ⟨added, next⟩
  · refine ⟨?_, named ?_⟩ <;> unfold entries <;>
      rw [List.map_append, same, commits_record]
    · exact listed
    · rw [next]
      exact ids
  · have moved : (history.pending.map PendingHistoryEntry.id ++ [history.nextId] ++
        (history.commits.map HistoryCommit.entry).map PendingHistoryEntry.id).Perm
        (history.nextId :: (history.pending.map PendingHistoryEntry.id ++
          (history.commits.map HistoryCommit.entry).map PendingHistoryEntry.id)) := by
      rw [List.append_assoc, List.singleton_append]
      exact List.perm_middle
    refine ⟨?_, named ?_⟩ <;> unfold entries <;>
      rw [List.map_append, added, commits_record]
    · exact moved.nodup_iff.mpr
        (List.nodup_cons.mpr ⟨fun again => Nat.lt_irrefl _ (ids _ again), listed⟩)
    · intro number again
      rw [next]
      rcases List.mem_cons.mp (moved.mem_iff.mp again) with rfl | old
      · exact Nat.lt_succ_self _
      · exact Nat.lt_succ_of_lt (ids number old)

theorem numbered_commit {history : FileHistory} (numbered : history.Numbered) (keyed : history.Keyed) {committed : PendingHistoryEntry}
    (selected : committed ∈ history.pending) (committedAt : Nat) :
    (history.commitPendingEntry committed committedAt).Numbered := by
  have moved := @entries_commit _ keyed _ selected committedAt
  exact ⟨(moved.map _).nodup_iff.mpr numbered.1,
    fun entry member => numbered.2 entry (moved.mem_iff.mp member)⟩

/-- The commit of a moved folder takes a new id. -/
theorem numbered_commitFolder {history : FileHistory} (numbered : history.Numbered)
    {entry : PendingHistoryEntry} (new : entry.id = history.nextId) (committedAt : Nat)
    (touched : List JsString) : (history.commitFolder entry committedAt touched).Numbered := by
  have added : (history.commitFolder entry committedAt touched).entries.Perm
      (entry :: history.entries) := List.perm_middle
  refine ⟨(added.map _).nodup_iff.mpr (List.nodup_cons.mpr ⟨?_, numbered.1⟩), ?_⟩
  · intro again
    obtain ⟨other, member, same⟩ := List.mem_map.mp again
    have below := numbered.2 other member
    rw [same, new] at below
    exact Nat.lt_irrefl _ below
  · intro other member
    rcases List.mem_cons.mp (added.mem_iff.mp member) with rfl | old
    · exact Nat.lt_succ_of_le (Nat.le_of_eq new)
    · exact Nat.lt_succ_of_lt (numbered.2 other old)

section SetFromPath

variable (history : FileHistory) (id : Nat) (toPath fromPath : JsString)

theorem ids_setFromPath :
    (history.setFromPath id toPath fromPath).pending.map PendingHistoryEntry.id =
      history.pending.map PendingHistoryEntry.id := by
  unfold setFromPath
  rw [List.map_map]
  apply List.map_congr_left
  intro entry _
  dsimp only [Function.comp]
  split <;> rfl

/-- Marking a move keeps every entry with its id, version and content. -/
theorem mem_setFromPath {entry : PendingHistoryEntry} (member : entry ∈ history.pending) :
    ∃ other ∈ (history.setFromPath id toPath fromPath).pending, other.id = entry.id ∧
      (other.path, other.bucketStart) = (entry.path, entry.bucketStart) ∧
      other.content = entry.content := by
  refine ⟨_, List.mem_map_of_mem member, ?_⟩
  split <;> exact ⟨rfl, rfl, rfl⟩

theorem keyed_setFromPath {history : FileHistory} (keyed : history.Keyed) :
    (history.setFromPath id toPath fromPath).Keyed := by
  unfold Keyed setFromPath at *
  rw [List.map_map]
  refine Eq.mp (congrArg List.Nodup (List.map_congr_left ?_)) keyed
  intro entry _
  dsimp only [Function.comp]
  split <;> rfl

theorem numbered_setFromPath {history : FileHistory} (numbered : history.Numbered) :
    (history.setFromPath id toPath fromPath).Numbered := by
  have same : (history.setFromPath id toPath fromPath).entries.map PendingHistoryEntry.id =
      history.entries.map PendingHistoryEntry.id := by
    unfold entries
    rw [List.map_append, List.map_append, ids_setFromPath]
    rfl
  refine ⟨same ▸ numbered.1, fun entry member => ?_⟩
  have listed : entry.id ∈ history.entries.map PendingHistoryEntry.id :=
    same ▸ List.mem_map_of_mem member
  obtain ⟨old, present, equal⟩ := List.mem_map.mp listed
  rw [← equal]
  exact numbered.2 old present

end SetFromPath

/-- The committed entries of one version grow by the commit of its entry. -/
theorem commitsOf_commit (history : FileHistory) (committed : PendingHistoryEntry) (committedAt : Nat) (path : JsString) (start : Nat) :
    (history.commitPendingEntry committed committedAt).commitsOf path start =
      history.commitsOf path start ++ if committed.hasKey path start then [committed] else [] := by
  have grown : ((history.commitPendingEntry committed committedAt).commits.filter fun commit =>
      !commit.folder).map HistoryCommit.entry =
        committed :: (history.commits.filter fun commit => !commit.folder).map HistoryCommit.entry :=
    rfl
  unfold commitsOf
  rw [grown, List.filter_cons]
  split
  · rw [List.reverse_cons]
  · rw [List.append_nil]

end FileHistory

namespace HistoryQueue

/-- The last content recorded for a file's version in a window is in memory until its
entry is committed, and in that commit from then on. -/
def Kept (queue : HistoryQueue) : Prop :=
  ∀ path start epoch content, queue.lastContent path start epoch = some content →
    (epoch = (queue.history.commitsOf path start).length ∧
      ∃ entry ∈ queue.history.pending, (entry.path, entry.bucketStart) = (path, start) ∧
        entry.content = content) ∨
    ∃ entry, (queue.history.commitsOf path start)[epoch]? = some entry ∧ entry.content = content

/-- No recorded version is lost or doubled: a version has one entry in memory, no entry is
in two places, and the last contents are kept. -/
structure Accounted (queue : HistoryQueue) : Prop where
  keyed : queue.history.Keyed
  numbered : queue.history.Numbered
  kept : queue.Kept

/-- The entries that a running flush has left to commit are in memory. -/
structure Sound (queue : HistoryQueue) : Prop extends Accounted queue where
  selected : ∀ rest, queue.running = some (.committing rest) →
    (∀ entry ∈ rest, entry ∈ queue.history.pending) ∧
      (rest.map fun entry => (entry.path, entry.bucketStart)).Nodup

/-- Another history with the same commits, and with the same versions and contents in
memory, keeps the last contents. -/
theorem Kept.transfer {queue next : HistoryQueue} (kept : queue.Kept)
    (recorded : next.recorded = queue.recorded)
    (commits : (next.history.commits.filter fun commit => !commit.folder) =
      queue.history.commits.filter fun commit => !commit.folder)
    (listed : ∀ entry ∈ queue.history.pending, ∃ other ∈ next.history.pending,
      (other.path, other.bucketStart) = (entry.path, entry.bucketStart) ∧
        other.content = entry.content) : next.Kept := by
  intro path start epoch content last
  have same : next.history.commitsOf path start = queue.history.commitsOf path start := by
    unfold FileHistory.commitsOf
    rw [commits]
  unfold lastContent at last
  rw [recorded] at last
  rw [same]
  refine (kept path start epoch content last).imp_left ?_
  rintro ⟨length, entry, member, key, text⟩
  obtain ⟨other, present, version, equal⟩ := listed entry member
  exact ⟨length, other, present, version.trans key, equal.trans text⟩

/-- A recorded content is the last one of its version. -/
theorem kept_record {queue : HistoryQueue} (kept : queue.Kept) (input : RecordFileHistoryInput) :
    (queue.record input).Kept := by
  intro path start epoch content last
  have commits : (queue.record input).history.commitsOf path start =
      queue.history.commitsOf path start := by
    unfold record FileHistory.commitsOf
    rw [FileHistory.commits_record]
  obtain ⟨recorded, key, text, _⟩ := FileHistory.mem_recorded queue.history input
  unfold lastContent record at last
  rw [commits]
  dsimp only at last
  rw [List.find?_cons] at last
  split at last
  · rename_i newest
    obtain rfl := Option.some.inj last
    rw [Bool.and_eq_true, Bool.and_eq_true, decide_eq_true_iff, decide_eq_true_iff,
      decide_eq_true_iff] at newest
    obtain ⟨⟨rfl, rfl⟩, rfl⟩ := newest
    exact .inl ⟨rfl, _, recorded, FileHistory.hasKey_iff.mp key, text⟩
  · rename_i older
    rcases kept path start epoch content last with ⟨length, entry, member, version, same⟩ | committed
    · refine .inl ⟨length, _, FileHistory.mem_record input member, ?_⟩
      rw [if_neg]
      · exact ⟨version, same⟩
      · intro again
        have key := version.symm.trans (FileHistory.hasKey_iff.mp again)
        obtain ⟨rfl, rfl⟩ := Prod.mk.inj key
        rw [length] at older
        simp at older
    · exact .inr committed

/-- A commit of an entry in memory keeps the last contents. -/
theorem kept_commit {queue next : HistoryQueue} (kept : queue.Kept) (keyed : queue.history.Keyed) {committed : PendingHistoryEntry}
    (selected : committed ∈ queue.history.pending) (committedAt : Nat)
    (history : next.history = queue.history.commitPendingEntry committed committedAt)
    (recorded : next.recorded = queue.recorded) : next.Kept := by
  intro path start epoch content last
  unfold lastContent at last
  rw [recorded] at last
  rw [history, FileHistory.commitsOf_commit]
  rcases kept path start epoch content last with ⟨length, entry, member, version, text⟩ | old
  · by_cases same : entry = committed
    · subst same
      refine .inr ⟨entry, ?_, text⟩
      rw [if_pos (FileHistory.hasKey_iff.mpr version), length, List.getElem?_concat_length]
    · have apart : ¬ committed.hasKey path start = true := fun key =>
        same (List.inj_on_of_nodup_map keyed member selected
          (version.trans (FileHistory.hasKey_iff.mp key).symm))
      rw [if_neg apart, List.append_nil]
      exact .inl ⟨length, entry,
        (FileHistory.mem_commit keyed selected committedAt).mpr ⟨member, same⟩, version, text⟩
  · obtain ⟨entry, located, text⟩ := old
    refine .inr ⟨entry, ?_, text⟩
    rw [List.getElem?_append_left (List.getElem?_eq_some_iff.mp located).1]
    exact located

/-- A record is accounted for. -/
theorem accounted_record {queue : HistoryQueue} (accounted : queue.Accounted)
    (input : RecordFileHistoryInput) : (queue.record input).Accounted where
  keyed := FileHistory.keyed_record accounted.keyed input
  numbered := FileHistory.numbered_record accounted.numbered input
  kept := kept_record accounted.kept input

/-- A flush selects entries in memory. -/
theorem sound_startFlush {queue : HistoryQueue} (accounted : queue.Accounted)
    (paths : Option (List JsString)) : (queue.startFlush paths).Sound where
  keyed := accounted.keyed
  numbered := accounted.numbered
  kept := accounted.kept
  selected := by
    intro rest running
    unfold startFlush at running
    dsimp only at running
    split at running
    · cases running
    · obtain rfl := HistoryTask.committing.inj (Option.some.inj running)
      exact ⟨fun entry member => (FileHistory.mem_selectPendingEntries.mp member).1,
        FileHistory.selectPendingEntries_distinct accounted.keyed paths⟩

/-- A queue whose running work commits no entries is sound if all is accounted for. -/
theorem sound_of_accounted {queue : HistoryQueue} (accounted : queue.Accounted)
    (idle : ∀ rest, queue.running ≠ some (.committing rest)) : queue.Sound where
  toAccounted := accounted
  selected := fun rest running => absurd running (idle rest)

theorem sound_start (historyCoalesceWindowMs : Nat) {queue : HistoryQueue}
    (accounted : queue.Accounted) (idle : queue.running = none) (work : HistoryWork) (now : Nat) :
    (queue.start historyCoalesceWindowMs work now).Sound := by
  have still : queue.Sound := sound_of_accounted accounted (by rw [idle]; exact fun _ => nofun)
  have busy : ∀ task, (∀ rest, task ≠ HistoryTask.committing rest) →
      Sound { queue with running := some task } := by
    intro task apart
    refine sound_of_accounted ⟨accounted.keyed, accounted.numbered, accounted.kept⟩ ?_
    exact fun rest running => apart rest (Option.some.inj running)
  cases work with
  | recordHistory path operation actor content now =>
      unfold start
      dsimp only
      split
      · exact busy _ fun _ => nofun
      · exact still
  | flushHistory paths =>
      unfold start
      dsimp only
      split
      · exact sound_startFlush accounted paths
      · exact still
  | carryHistoryAfterFileMove fromPath toPath actor => exact busy _ fun _ => nofun
  | carryHistoryAfterFolderMove fromPath toPath actor =>
      unfold start
      dsimp only
      split
      · exact busy _ fun _ => nofun
      · exact still

theorem sound_finishRecord {queue : HistoryQueue} (accounted : queue.Accounted)
    (input : RecordFileHistoryInput) (fromPath : Option JsString) :
    (queue.finishRecord input fromPath).Sound := by
  have recorded := accounted_record accounted input
  cases fromPath with
  | none =>
      exact sound_of_accounted ⟨recorded.keyed, recorded.numbered, recorded.kept⟩ fun _ => nofun
  | some fromPath =>
      have marked : Accounted { queue.record input with
          history := (queue.record input).history.setFromPath
            (queue.history.recordFileHistory input).2.id input.path fromPath } := by
        refine ⟨FileHistory.keyed_setFromPath _ _ _ recorded.keyed,
          FileHistory.numbered_setFromPath _ _ _ recorded.numbered,
          recorded.kept.transfer rfl rfl fun entry member => ?_⟩
        obtain ⟨other, present, _, version, text⟩ := FileHistory.mem_setFromPath _ _ _ _ member
        exact ⟨other, present, version, text⟩
      exact sound_startFlush marked _

/-- A step neither loses nor doubles a version: what leaves the memory is in a new commit
as it was, a running flush leaves alone what it did not select, while nothing is recorded,
and a failure changes nothing. -/
structure Safe (queue : HistoryQueue) (label : HistoryLabel) (next : HistoryQueue) : Prop where
  accounted : next.Accounted
  removed : ∀ entry ∈ queue.history.pending,
    (∃ other ∈ next.history.pending, other.id = entry.id ∧
      (other.path, other.bucketStart) = (entry.path, entry.bucketStart)) ∨
    ∃ commit, next.history.commits = commit :: queue.history.commits ∧ commit.entry = entry
  undisturbed : ∀ rest, queue.running = some (.committing rest) →
    next.recorded = queue.recorded ∧
      ∀ entry ∈ queue.history.pending, entry ∉ rest → entry ∈ next.history.pending
  failed : label = .failed → next.history = queue.history

/-- A step that changes neither the history nor what is recorded is safe. -/
theorem Safe.of_same {queue next : HistoryQueue} {label : HistoryLabel}
    (accounted : next.Accounted) (history : next.history = queue.history)
    (recorded : next.recorded = queue.recorded) : queue.Safe label next where
  accounted := accounted
  removed := fun entry member => .inl ⟨entry, history ▸ member, rfl, rfl⟩
  undisturbed := fun _ _ => ⟨recorded, fun _ member _ => history ▸ member⟩
  failed := fun _ => history

theorem start_same (historyCoalesceWindowMs : Nat) (queue : HistoryQueue) (work : HistoryWork)
    (now : Nat) : (queue.start historyCoalesceWindowMs work now).history = queue.history ∧
      (queue.start historyCoalesceWindowMs work now).recorded = queue.recorded := by
  cases work with
  | carryHistoryAfterFileMove fromPath toPath actor => exact ⟨rfl, rfl⟩
  | _ =>
      unfold start
      dsimp only
      split <;> exact ⟨rfl, rfl⟩

theorem safe_finishRecord {queue : HistoryQueue} (sound : queue.Sound)
    {input : RecordFileHistoryInput} {fromPath : Option JsString}
    (running : queue.running = some (.hashing input fromPath)) :
    queue.Safe .hashed (queue.finishRecord input fromPath) where
  accounted := (sound_finishRecord sound.toAccounted input fromPath).toAccounted
  removed := by
    intro entry member
    have kept := FileHistory.mem_record input member
    have same : ∀ other : PendingHistoryEntry, other = (if entry.hasKey input.path
        (bucketStart input.now input.coalesceWindowMs) then entry.revise input else entry) →
        other.id = entry.id ∧ (other.path, other.bucketStart) = (entry.path, entry.bucketStart) := by
      rintro _ rfl
      split <;> exact ⟨rfl, rfl⟩
    obtain ⟨id, version⟩ := same _ rfl
    cases fromPath with
    | none => exact .inl ⟨_, kept, id, version⟩
    | some fromPath =>
        obtain ⟨other, present, named, key, _⟩ :=
          FileHistory.mem_setFromPath _ (queue.history.recordFileHistory input).2.id input.path
            fromPath kept
        exact .inl ⟨other, present, named.trans id, key.trans version⟩
  undisturbed := by
    intro rest busy
    rw [running] at busy
    cases busy
  failed := nofun

/-- Every step of the queue is sound and safe. -/
theorem sound_step {historyCoalesceWindowMs : Nat} {queue next : HistoryQueue}
    {label : HistoryLabel} (sound : queue.Sound)
    (stepped : (historyMachine historyCoalesceWindowMs).step queue label =
      some next) : next.Sound ∧ queue.Safe label next := by
  have accounted := sound.toAccounted
  cases label with
  | enqueueHistoryMutation work =>
      obtain rfl := Option.some.inj stepped
      exact ⟨⟨⟨accounted.keyed, accounted.numbered, accounted.kept⟩, sound.selected⟩,
        .of_same ⟨accounted.keyed, accounted.numbered, accounted.kept⟩ rfl rfl⟩
  | begin now =>
      simp only [historyMachine] at stepped
      split at stepped
      · rename_i work rest idle waiting
        obtain rfl := Option.some.inj stepped
        have started := @sound_start historyCoalesceWindowMs { queue with queue := rest }
          ⟨accounted.keyed, accounted.numbered, accounted.kept⟩ idle work now
        obtain ⟨history, recorded⟩ :=
          start_same historyCoalesceWindowMs { queue with queue := rest } work now
        exact ⟨started, .of_same started.toAccounted history recorded⟩
      · cases stepped
  | read content now =>
      have ended : ∀ task : Option HistoryTask, (∀ rest, task ≠ some (.committing rest)) →
          Sound { queue with running := task } ∧
            queue.Safe (.read content now) { queue with running := task } := by
        intro task apart
        have same : Accounted { queue with running := task } :=
          ⟨accounted.keyed, accounted.numbered, accounted.kept⟩
        exact ⟨sound_of_accounted same apart, .of_same same rfl rfl⟩
      simp only [historyMachine] at stepped
      split at stepped
      · obtain rfl := Option.some.inj stepped
        exact ended _ fun _ => nofun
      · split at stepped
        · obtain rfl := Option.some.inj stepped
          exact ended _ fun _ => nofun
        · obtain rfl := Option.some.inj stepped
          exact ended _ fun _ => nofun
      · cases stepped
  | hashed =>
      simp only [historyMachine] at stepped
      split at stepped
      · rename_i input fromPath running
        obtain rfl := Option.some.inj stepped
        exact ⟨sound_finishRecord accounted input fromPath, safe_finishRecord sound running⟩
      · cases stepped
  | committed committedAt =>
      simp only [historyMachine] at stepped
      split at stepped
      · rename_i entry rest running
        obtain rfl := Option.some.inj stepped
        obtain ⟨listed, distinct⟩ := sound.selected _ running
        have selected := listed entry List.mem_cons_self
        have after : Accounted { queue with
            history := queue.history.commitPendingEntry entry committedAt
            running := if rest.isEmpty then none else some (.committing rest) } :=
          ⟨FileHistory.keyed_commit accounted.keyed entry committedAt,
            FileHistory.numbered_commit accounted.numbered accounted.keyed selected committedAt,
            kept_commit accounted.kept accounted.keyed selected committedAt rfl rfl⟩
        refine ⟨⟨after, ?_⟩, after, ?_, ?_, nofun⟩
        · intro others busy
          dsimp only at busy
          split at busy
          · cases busy
          · obtain rfl := HistoryTask.committing.inj (Option.some.inj busy)
            exact ⟨FileHistory.mem_commit_of_distinct committedAt distinct fun other member =>
              listed other (List.mem_cons_of_mem _ member), (List.nodup_cons.mp distinct).2⟩
        · intro other member
          by_cases same : other = entry
          · exact .inr ⟨_, rfl, same.symm⟩
          · exact .inl ⟨other, (FileHistory.mem_commit accounted.keyed selected committedAt).mpr
              ⟨member, same⟩, rfl, rfl⟩
        · intro others busy
          obtain rfl := HistoryTask.committing.inj (Option.some.inj (running.symm.trans busy))
          refine ⟨rfl, fun other member apart => ?_⟩
          refine (FileHistory.mem_commit accounted.keyed selected committedAt).mpr ⟨member, ?_⟩
          rintro rfl
          exact apart List.mem_cons_self
      · cases stepped
  | committedFolder committedAt touched =>
      simp only [historyMachine] at stepped
      split at stepped
      · rename_i fromPath toPath actor running
        obtain rfl := Option.some.inj stepped
        have after : Accounted { queue with
            history := queue.history.commitFolder
              (queue.history.folderEntry fromPath toPath actor committedAt) committedAt touched
            running := none } := by
          exact ⟨accounted.keyed,
            FileHistory.numbered_commitFolder accounted.numbered rfl committedAt touched,
            accounted.kept.transfer rfl rfl fun entry member => ⟨entry, member, rfl, rfl⟩⟩
        refine ⟨sound_of_accounted after fun _ => nofun, after,
          fun entry member => .inl ⟨entry, member, rfl, rfl⟩, ?_, nofun⟩
        intro rest busy
        rw [running] at busy
        cases busy
      · cases stepped
  | failed =>
      have same : Accounted { queue with running := none } :=
        ⟨accounted.keyed, accounted.numbered, accounted.kept⟩
      simp only [historyMachine] at stepped
      split at stepped
      · obtain rfl := Option.some.inj stepped
        exact ⟨sound_of_accounted same fun _ => nofun, .of_same same rfl rfl⟩
      · obtain rfl := Option.some.inj stepped
        exact ⟨sound_of_accounted same fun _ => nofun, .of_same same rfl rfl⟩
      · cases stepped

theorem sound_new : new.Sound where
  keyed := List.nodup_nil
  numbered := ⟨List.nodup_nil, nofun⟩
  kept := nofun
  selected := nofun

end HistoryQueue

end Kb1Daemon
