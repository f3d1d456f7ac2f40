import Kb1Daemon.Vault.Path
import Mathlib.Data.List.Sort

/-! # The entries of the file history

The versions of a file are recorded in memory and committed later. Versions of one file
that fall into one window of time share an entry, which keeps the newest content and
every contributor; the entries are committed in the order of their last change. A
version never loses a contributor, and an entry that leaves the memory is in a commit
(`FileHistory.credits_record`, `FileHistory.credits_flush`).
-/

namespace Kb1Daemon

inductive ActorKind where
  | user
  | mcpClient
  | integration
  | system
  | unknown
  deriving DecidableEq, Repr

/-- Whoever changes a vault. -/
structure VaultActor where
  kind : ActorKind
  id : Option JsString
  name : Option JsString
  client : Option JsString
  deriving DecidableEq, Repr

/-- The fields two records of one actor agree in. -/
def actorKey (actor : VaultActor) :
    ActorKind × Option JsString × Option JsString × Option JsString :=
  (actor.kind, actor.id, actor.name, actor.client)

theorem actorKey_injective : Function.Injective actorKey := by
  rintro ⟨kind, id, name, client⟩ ⟨otherKind, otherId, otherName, otherClient⟩ same
  cases same
  rfl

/-- Add an actor whose key is new. -/
def addContributor (contributors : List VaultActor) (actor : VaultActor) : List VaultActor :=
  if contributors.any fun candidate => actorKey candidate = actorKey actor then contributors
  else contributors ++ [actor]

theorem mem_addContributor {contributors : List VaultActor} {actor other : VaultActor} :
    other ∈ addContributor contributors actor ↔ other ∈ contributors ∨ other = actor := by
  unfold addContributor
  split
  · rename_i listed
    obtain ⟨candidate, member, same⟩ := List.any_eq_true.mp listed
    have equal : candidate = actor := actorKey_injective (of_decide_eq_true same)
    subst equal
    constructor
    · exact .inl
    · rintro (old | rfl)
      · exact old
      · exact member
  · rw [List.mem_append, List.mem_singleton]

inductive FileHistoryOperation where
  | create
  | update
  | move
  | rename
  deriving DecidableEq, Repr

structure RecordFileHistoryInput where
  path : JsString
  operation : FileHistoryOperation
  actor : VaultActor
  content : JsString
  now : Nat
  coalesceWindowMs : Nat
  deriving DecidableEq, Repr

/-- A version that is not committed yet, or the entry of a commit. Its random id is
the number of the entries made before it. -/
structure PendingHistoryEntry where
  id : Nat
  path : JsString
  fromPath : Option JsString
  operation : FileHistoryOperation
  bucketStart : Nat
  createdAt : Nat
  updatedAt : Nat
  content : JsString
  contributors : List VaultActor
  deriving DecidableEq, Repr

/-- The start of the window a moment falls into. -/
def bucketStart (now windowMs : Nat) : Nat :=
  if windowMs = 0 then now else now / windowMs * windowMs

/-- The entry belongs to the version of a file in a window. -/
def PendingHistoryEntry.hasKey (entry : PendingHistoryEntry) (path : JsString) (start : Nat) :
    Bool :=
  entry.path = path && entry.bucketStart = start

/-- Record another version in an entry. -/
def PendingHistoryEntry.revise (entry : PendingHistoryEntry) (input : RecordFileHistoryInput) :
    PendingHistoryEntry :=
  { entry with
    operation := if entry.operation = .create then .create else input.operation
    updatedAt := input.now
    content := input.content
    contributors := addContributor entry.contributors input.actor }

/-- A commit: the entry it was made for, whether it moved a folder, and the paths whose log
shows it. Its hash is the number of the commits before it. -/
structure HistoryCommit where
  commitId : Nat
  committedAt : Nat
  entry : PendingHistoryEntry
  folder : Bool
  touched : List JsString
  deriving DecidableEq, Repr

/-- The history of a vault: the entries in memory, in the order of their creation, and
the commits, newest first. -/
structure FileHistory where
  pending : List PendingHistoryEntry
  commits : List HistoryCommit
  nextId : Nat
  deriving DecidableEq, Repr

namespace FileHistory

/-- The entry of a version that shares none. -/
def newEntry (history : FileHistory) (input : RecordFileHistoryInput) : PendingHistoryEntry where
  id := history.nextId
  path := input.path
  fromPath := none
  operation := input.operation
  bucketStart := bucketStart input.now input.coalesceWindowMs
  createdAt := bucketStart input.now input.coalesceWindowMs
  updatedAt := input.now
  content := input.content
  contributors := [input.actor]

/-- Record a version; the result is the entry that holds it. -/
def recordFileHistory (history : FileHistory) (input : RecordFileHistoryInput) :
    FileHistory × PendingHistoryEntry :=
  let start := bucketStart input.now input.coalesceWindowMs
  match history.pending.find? fun entry => entry.hasKey input.path start with
  | some existing =>
      ({ history with
        pending := history.pending.map fun entry =>
          if entry.hasKey input.path start then entry.revise input else entry },
        existing.revise input)
  | none =>
      ({ history with
        pending := history.pending ++ [history.newEntry input]
        nextId := history.nextId + 1 }, history.newEntry input)

/-- The entries of some files, or of all, in the order of their last change. -/
def selectPendingEntries (history : FileHistory) (paths : Option (List JsString)) :
    List PendingHistoryEntry :=
  (history.pending.filter fun entry => paths.all fun paths => entry.path ∈ paths).insertionSort
    fun left right => left.updatedAt ≤ right.updatedAt

/-- The commit of an entry. -/
def newCommit (history : FileHistory) (entry : PendingHistoryEntry) (committedAt : Nat) :
    HistoryCommit where
  commitId := history.commits.length
  committedAt := committedAt
  entry := entry
  folder := false
  touched := entry.path :: entry.fromPath.toList

/-- Commit an entry and drop it from the memory. -/
def commitPendingEntry (history : FileHistory) (entry : PendingHistoryEntry)
    (committedAt : Nat) : FileHistory :=
  { history with
    pending := history.pending.filter fun other => !other.hasKey entry.path entry.bucketStart
    commits := history.newCommit entry committedAt :: history.commits }

/-- Commit entries, each at its time. -/
def commitAll (history : FileHistory) (selected : List (PendingHistoryEntry × Nat)) :
    FileHistory :=
  selected.foldl (fun history commit => history.commitPendingEntry commit.1 commit.2)
    history

/-- Commit the selected entries, at the given times. The first Git command that fails
ends it: the times of the later ones are missing. -/
def flushFileHistory (history : FileHistory) (paths : Option (List JsString))
    (times : List Nat) : FileHistory :=
  history.commitAll ((history.selectPendingEntries paths).zip times)

/-- All entries, committed or not. -/
def entries (history : FileHistory) : List PendingHistoryEntry :=
  history.pending ++ history.commits.map HistoryCommit.entry

/-- Every version of a file in a window has one entry in memory. -/
def Keyed (history : FileHistory) : Prop :=
  (history.pending.map fun entry => (entry.path, entry.bucketStart)).Nodup

/-- The entry of an id lists an actor among the contributors of a file's version in a
window. -/
def Credits (history : FileHistory) (id : Nat) (path : JsString) (start : Nat)
    (actor : VaultActor) : Prop :=
  ∃ entry ∈ history.entries, entry.id = id ∧ entry.path = path ∧ entry.bucketStart = start ∧
    actor ∈ entry.contributors

theorem hasKey_iff {entry : PendingHistoryEntry} {path : JsString} {start : Nat} :
    entry.hasKey path start = true ↔ (entry.path, entry.bucketStart) = (path, start) := by
  rw [PendingHistoryEntry.hasKey, Bool.and_eq_true, decide_eq_true_iff, decide_eq_true_iff,
    Prod.mk.injEq]

/-- Recording a version commits nothing. -/
theorem commits_record (history : FileHistory) (input : RecordFileHistoryInput) :
    (history.recordFileHistory input).1.commits = history.commits := by
  unfold recordFileHistory
  dsimp only
  split <;> rfl

/-- The entry that holds a recorded version is in memory, with its content and actor. -/
theorem mem_recorded (history : FileHistory) (input : RecordFileHistoryInput) :
    (history.recordFileHistory input).2 ∈ (history.recordFileHistory input).1.pending ∧
      (history.recordFileHistory input).2.hasKey input.path
        (bucketStart input.now input.coalesceWindowMs) = true ∧
      (history.recordFileHistory input).2.content = input.content ∧
      input.actor ∈ (history.recordFileHistory input).2.contributors := by
  unfold recordFileHistory
  dsimp only
  split
  · rename_i existing found
    have keyed := List.find?_some found
    refine ⟨List.mem_map.mpr ⟨existing, List.mem_of_find?_eq_some found, if_pos keyed⟩, keyed,
      rfl, ?_⟩
    exact mem_addContributor.mpr (.inr rfl)
  · exact ⟨List.mem_append_right _ (List.mem_singleton_self _), hasKey_iff.mpr rfl, rfl,
      List.mem_singleton_self _⟩

/-- A recorded version is credited to its actor. -/
theorem credits_recorded (history : FileHistory) (input : RecordFileHistoryInput) :
    (history.recordFileHistory input).1.Credits (history.recordFileHistory input).2.id input.path
      (bucketStart input.now input.coalesceWindowMs) input.actor := by
  obtain ⟨member, key, _, credited⟩ := mem_recorded history input
  obtain ⟨file, window⟩ := Prod.mk.inj (hasKey_iff.mp key)
  exact ⟨_, List.mem_append_left _ member, rfl, file, window, credited⟩

/-- An entry in memory stays there when a version is recorded: the entry of that version
is revised, the others stay as they are. -/
theorem mem_record {history : FileHistory} (input : RecordFileHistoryInput)
    {entry : PendingHistoryEntry} (member : entry ∈ history.pending) :
    (if entry.hasKey input.path (bucketStart input.now input.coalesceWindowMs) then
      entry.revise input else entry) ∈ (history.recordFileHistory input).1.pending := by
  unfold recordFileHistory
  dsimp only
  split
  · exact List.mem_map_of_mem member
  · rename_i fresh
    rw [if_neg (List.find?_eq_none.mp fresh entry member)]
    exact List.mem_append_left _ member

/-- Recording a version takes no contributor from an entry. -/
theorem credits_record {history : FileHistory} (input : RecordFileHistoryInput) {id start : Nat}
    {path : JsString} {actor : VaultActor} (credits : history.Credits id path start actor) :
    (history.recordFileHistory input).1.Credits id path start actor := by
  obtain ⟨entry, member, same, file, window, listed⟩ := credits
  rcases List.mem_append.mp member with pending | committed
  · refine ⟨_, List.mem_append_left _ (mem_record input pending), ?_⟩
    split
    · exact ⟨same, file, window, mem_addContributor.mpr (.inl listed)⟩
    · exact ⟨same, file, window, listed⟩
  · refine ⟨entry, List.mem_append_right _ ?_, same, file, window, listed⟩
    rw [commits_record]
    exact committed

/-- Recording a version keeps the ids, or adds a new one. -/
theorem ids_record (history : FileHistory) (input : RecordFileHistoryInput) :
    (history.recordFileHistory input).1.pending.map PendingHistoryEntry.id =
        history.pending.map PendingHistoryEntry.id ∧
      (history.recordFileHistory input).1.nextId = history.nextId ∨
    (history.recordFileHistory input).1.pending.map PendingHistoryEntry.id =
        history.pending.map PendingHistoryEntry.id ++ [history.nextId] ∧
      (history.recordFileHistory input).1.nextId = history.nextId + 1 := by
  unfold recordFileHistory
  dsimp only
  split
  · refine .inl ⟨?_, rfl⟩
    rw [List.map_map]
    apply List.map_congr_left
    intro entry _
    dsimp only [Function.comp]
    split <;> rfl
  · exact .inr ⟨by rw [List.map_append]; rfl, rfl⟩

theorem keyed_record {history : FileHistory} (keyed : history.Keyed)
    (input : RecordFileHistoryInput) : (history.recordFileHistory input).1.Keyed := by
  unfold Keyed recordFileHistory at *
  dsimp only
  split
  · rw [List.map_map]
    have kept : ((fun entry : PendingHistoryEntry => (entry.path, entry.bucketStart)) ∘
        fun entry : PendingHistoryEntry => if entry.hasKey input.path
          (bucketStart input.now input.coalesceWindowMs) then entry.revise input else entry) =
        fun entry => (entry.path, entry.bucketStart) := by
      funext entry
      dsimp only [Function.comp]
      split <;> rfl
    rw [kept]
    exact keyed
  · rename_i fresh
    rw [List.map_append, List.nodup_append]
    refine ⟨keyed, List.nodup_singleton _, ?_⟩
    intro key old other new
    obtain rfl := List.mem_singleton.mp new
    obtain ⟨entry, member, rfl⟩ := List.mem_map.mp old
    intro same
    exact List.find?_eq_none.mp fresh entry member (hasKey_iff.mpr same)

/-- The selected entries are entries in memory. -/
theorem mem_selectPendingEntries {history : FileHistory} {paths : Option (List JsString)}
    {entry : PendingHistoryEntry} :
    entry ∈ history.selectPendingEntries paths ↔
      entry ∈ history.pending ∧ ∀ files, paths = some files → entry.path ∈ files := by
  unfold selectPendingEntries
  rw [(List.perm_insertionSort _ _).mem_iff, List.mem_filter]
  cases paths with
  | none => simp
  | some files => simp

/-- No two selected entries belong to one version. -/
theorem selectPendingEntries_distinct {history : FileHistory} (keyed : history.Keyed)
    (paths : Option (List JsString)) :
    ((history.selectPendingEntries paths).map fun entry =>
      (entry.path, entry.bucketStart)).Nodup := by
  unfold selectPendingEntries
  rw [((List.perm_insertionSort _ _).map _).nodup_iff]
  exact keyed.sublist (List.filter_sublist.map _)

theorem keyed_commit {history : FileHistory} (keyed : history.Keyed)
    (committed : PendingHistoryEntry) (committedAt : Nat) :
    (history.commitPendingEntry committed committedAt).Keyed :=
  keyed.sublist (List.filter_sublist.map _)

/-- Only the committed entry leaves the memory. -/
theorem mem_commit {history : FileHistory} (keyed : history.Keyed)
    {committed : PendingHistoryEntry} (selected : committed ∈ history.pending)
    (committedAt : Nat) {entry : PendingHistoryEntry} :
    entry ∈ (history.commitPendingEntry committed committedAt).pending ↔
      entry ∈ history.pending ∧ entry ≠ committed := by
  unfold commitPendingEntry
  rw [List.mem_filter, Bool.not_eq_true', Bool.eq_false_iff]
  constructor
  · rintro ⟨member, apart⟩
    refine ⟨member, ?_⟩
    rintro rfl
    exact apart (hasKey_iff.mpr rfl)
  · rintro ⟨member, different⟩
    refine ⟨member, fun same => different ?_⟩
    exact List.inj_on_of_nodup_map keyed member selected (hasKey_iff.mp same)

/-- The entry of a version in memory is the only one. -/
theorem filter_hasKey {history : FileHistory} (keyed : history.Keyed)
    {entry : PendingHistoryEntry} (member : entry ∈ history.pending) :
    history.pending.filter (fun other => other.hasKey entry.path entry.bucketStart) = [entry] := by
  refine List.perm_singleton.mp ((List.perm_ext_iff_of_nodup
    ((List.Nodup.of_map _ keyed).filter _) (List.nodup_singleton entry)).mpr fun other => ?_)
  rw [List.mem_filter, List.mem_singleton]
  constructor
  · rintro ⟨listed, same⟩
    exact List.inj_on_of_nodup_map keyed listed member (hasKey_iff.mp same)
  · rintro rfl
    exact ⟨member, hasKey_iff.mpr rfl⟩

/-- A commit moves an entry from the memory to the commits. -/
theorem entries_commit {history : FileHistory} (keyed : history.Keyed)
    {committed : PendingHistoryEntry} (selected : committed ∈ history.pending)
    (committedAt : Nat) :
    (history.commitPendingEntry committed committedAt).entries.Perm history.entries := by
  have split := List.filter_append_perm
    (fun other : PendingHistoryEntry => other.hasKey committed.path committed.bucketStart)
    history.pending
  rw [filter_hasKey keyed selected, List.singleton_append] at split
  exact List.perm_middle.trans (split.append_right _)

/-- Entries of other versions stay in memory. -/
theorem mem_commit_of_distinct {history : FileHistory} {committed : PendingHistoryEntry}
    {rest : List PendingHistoryEntry} (committedAt : Nat)
    (distinct : ((committed :: rest).map fun entry => (entry.path, entry.bucketStart)).Nodup)
    (listed : ∀ entry ∈ rest, entry ∈ history.pending) :
    ∀ entry ∈ rest, entry ∈ (history.commitPendingEntry committed committedAt).pending := by
  intro entry member
  refine List.mem_filter.mpr ⟨listed entry member, ?_⟩
  rw [Bool.not_eq_true', Bool.eq_false_iff]
  intro same
  rw [List.map_cons, List.nodup_cons] at distinct
  exact distinct.1 (hasKey_iff.mp same ▸ List.mem_map_of_mem member)

/-- An entry that is committed leaves the memory and keeps its contributors. -/
theorem credits_commit {history : FileHistory} (keyed : history.Keyed)
    {committed : PendingHistoryEntry} (selected : committed ∈ history.pending)
    (committedAt : Nat) {id start : Nat} {path : JsString} {actor : VaultActor}
    (credits : history.Credits id path start actor) :
    (history.commitPendingEntry committed committedAt).Credits id path start actor := by
  obtain ⟨entry, member, facts⟩ := credits
  exact ⟨entry, (entries_commit keyed selected committedAt).mem_iff.mpr member, facts⟩

/-- Committing entries of the memory takes no contributor from an entry. -/
theorem credits_commitAll {selected : List (PendingHistoryEntry × Nat)} {history : FileHistory}
    (keyed : history.Keyed) (listed : ∀ entry ∈ selected.map Prod.fst, entry ∈ history.pending)
    (distinct : ((selected.map Prod.fst).map fun entry =>
      (entry.path, entry.bucketStart)).Nodup) {id start : Nat} {path : JsString}
    {actor : VaultActor} (credits : history.Credits id path start actor) :
    (history.commitAll selected).Credits id path start actor := by
  induction selected generalizing history with
  | nil => exact credits
  | cons first rest ih =>
      refine ih (keyed_commit keyed first.1 first.2) ?_ (List.nodup_cons.mp distinct).2 ?_
      · exact mem_commit_of_distinct first.2 distinct
          fun entry member => listed entry (List.mem_cons_of_mem _ member)
      · exact credits_commit keyed (listed _ List.mem_cons_self) first.2 credits

/-- **Flushing keeps the contributors.** -/
theorem credits_flush {history : FileHistory} (keyed : history.Keyed)
    (paths : Option (List JsString)) (times : List Nat) {id start : Nat} {path : JsString}
    {actor : VaultActor} (credits : history.Credits id path start actor) :
    (history.flushFileHistory paths times).Credits id path start actor := by
  have shorter : (((history.selectPendingEntries paths).zip times).map Prod.fst).Sublist
      (history.selectPendingEntries paths) := by
    rw [List.zip_eq_zip_take_min, List.map_fst_zip (by simp)]
    exact List.take_sublist _ _
  refine credits_commitAll keyed ?_ ?_ credits
  · exact fun entry member => (mem_selectPendingEntries.mp (shorter.subset member)).1
  · exact (selectPendingEntries_distinct keyed paths).sublist (shorter.map _)

end FileHistory

end Kb1Daemon
