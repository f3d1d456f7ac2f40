import Kb1Daemon.Foundation.IsoTime
import Kb1Daemon.Foundation.Machine
import Kb1Daemon.History.Flush
import Mathlib.Data.List.Pairwise

/-! # The order of a file's versions

The versions of a file are listed by the starts of their windows and then by their ids. A recording
joins the version of its window or makes a new one, and a move dates its version by its own time,
so the list is in the order of the recordings exactly as long as every recording belongs above all
other versions that are listed (`versions_newest_first_iff`): a recording of a window that began
before a move, or before a commit of the same window, does not.
-/

namespace Kb1Daemon

open JsString

/-- An entry that is committed at a time has that time in its message. -/
def PendingHistoryEntry.stamp (now : Option Nat) (entry : PendingHistoryEntry) :
    PendingHistoryEntry :=
  { entry with updatedAt := now.getD entry.updatedAt }

namespace FileHistory

/-- The history whose selected entries carry the time of a flush. -/
def stamp (history : FileHistory) (selected : List PendingHistoryEntry) (now : Option Nat) :
    FileHistory :=
  { history with
    pending := history.pending.map fun entry => if entry ∈ selected then entry.stamp now else entry }

/-- A flush at a time whose Git commands succeed. -/
def flushAt (history : FileHistory) (paths : Option (List JsString)) (now : Option Nat)
    (committedAt : PendingHistoryEntry → Nat) : FileHistory :=
  let selected := history.selectPendingEntries paths
  (history.stamp selected now).commitAll
    (selected.map fun entry => (entry.stamp now, committedAt entry))

def moveFileHistory (history : FileHistory) (fromPath : JsString) (input : RecordFileHistoryInput)
    (committedAt : PendingHistoryEntry → Nat) : FileHistory :=
  let recorded := history.recordFileHistory input
  (recorded.1.setFromPath recorded.2.id input.path fromPath).flushAt (some [input.path])
    (some input.now) committedAt

end FileHistory

/-- A call on one file. -/
inductive HistoryCall where
  | record (operation : FileHistoryOperation) (actor : VaultActor) (content : JsString)
      (now coalesceWindowMs : Nat)
  | flush (paths : Option (List JsString)) (now : Option Nat)
      (committedAt : PendingHistoryEntry → Nat)
  | move (toPath : JsString) (actor : VaultActor) (content : JsString) (now : Nat)
      (committedAt : PendingHistoryEntry → Nat)

/-- A file and its history. Every time of a call so far is below the clock, and every entry has the
time of the last recording it holds. -/
structure TrackedFile where
  history : FileHistory
  path : JsString
  clock : Nat
  recordedAt : Nat → Nat

namespace TrackedFile

/-- A file without history. -/
def new (path : JsString) : TrackedFile := ⟨⟨[], [], 0⟩, path, 0, fun _ => 0⟩

def recordInput (file : TrackedFile) (operation : FileHistoryOperation) (actor : VaultActor)
    (content : JsString) (now coalesceWindowMs : Nat) : RecordFileHistoryInput :=
  ⟨file.path, operation, actor, content, now, coalesceWindowMs⟩

def moveInput (file : TrackedFile) (toPath : JsString) (actor : VaultActor) (content : JsString)
    (now : Nat) : RecordFileHistoryInput :=
  ⟨toPath, moveOperationForPaths file.path toPath, actor, content, now, 0⟩

/-- The times of the recordings after another one. -/
def recordAt (file : TrackedFile) (input : RecordFileHistoryInput) : Nat → Nat :=
  Function.update file.recordedAt (file.history.recordFileHistory input).2.id input.now

end TrackedFile

/-- The calls on one file, at increasing times. -/
def trackedFileMachine : Machine TrackedFile HistoryCall where
  step file
    | .record operation actor content now coalesceWindowMs =>
        let input := file.recordInput operation actor content now coalesceWindowMs
        if file.clock ≤ now then
          some ⟨(file.history.recordFileHistory input).1, file.path, now + 1, file.recordAt input⟩
        else none
    | .flush paths now committedAt =>
        if ∀ time ∈ now, file.clock ≤ time then
          some { file with
            history := file.history.flushAt paths now committedAt
            clock := (now.map (· + 1)).getD file.clock }
        else none
    | .move toPath actor content now committedAt =>
        let input := file.moveInput toPath actor content now
        if validateVaultPath toPath .file ∧ file.clock ≤ now then
          some ⟨file.history.moveFileHistory file.path input committedAt, toPath, now + 1,
            file.recordAt input⟩
        else none

/-- A version belongs above another one: its window began later, or at the same time and its id is
not the smaller one. -/
def HistoryOrder.Above (order : HistoryOrder) (left right : PendingHistoryEntry) : Prop :=
  right.bucketStart < left.bucketStart ∨
    right.bucketStart = left.bucketStart ∧
      order.localeLe (pendingId right.id).1 (pendingId left.id).1 = true

/-- The number of the version of a file that a recording in a window joins, or of a new one. -/
def FileHistory.recordId (history : FileHistory) (path : JsString) (start : Nat) : Nat :=
  ((history.pending.find? fun entry => entry.hasKey path start).map PendingHistoryEntry.id).getD
    history.nextId

/-- A recording belongs above every other version that is listed: its window began later, or at the
same time and the id of its version is not the smaller one. -/
def RecordsOnTop (order : HistoryOrder) (file : TrackedFile) : HistoryCall → Prop
  | .record _ _ _ now coalesceWindowMs =>
      ∀ item ∈ file.history.listedEntries file.path,
        let start := bucketStart now coalesceWindowMs
        item.2.id ≠ file.history.recordId file.path start →
          item.2.bucketStart < start ∨
            item.2.bucketStart = start ∧
              order.localeLe (pendingId item.2.id).1
                (pendingId (file.history.recordId file.path start)).1 = true
  | _ => True

variable (hashContent : JsString → Token) (order : HistoryOrder)

/-- A version follows one whose last recording is later, and whose time is not earlier. -/
def TrackedFile.Follows (file : TrackedFile) (left right : FileHistoryEntry) : Prop :=
  (∃ newer older, left.id = (pendingId newer).1 ∧ right.id = (pendingId older).1 ∧
      file.recordedAt older < file.recordedAt newer) ∧
    order.getTime right.updatedAt ≤ order.getTime left.updatedAt

/-- The versions of a file are listed in the order of their last recordings, newest first. -/
def TrackedFile.ListsNewestFirst (file : TrackedFile) : Prop :=
  (file.history.newestFirst hashContent order file.path).Pairwise (file.Follows order)

/-- What a commit shows of a path can be read back. -/
def LegiblePath (path : JsString) : Prop :=
  commitSeparator ∉ commitPathDisplay path ∧ hasLineSeparator path = false

/-- What a commit shows of an actor can be read back. -/
def LegibleActor (actor : VaultActor) : Prop :=
  commitSeparator ∉ actorLabel actor ∧
    hasLineSeparator ((actorMembers actor).flatMap fun member => member.1 ++ member.2) = false ∧
      ∀ line ∈ lines (units "- " ++ actorLabel actor), trailerStart line = none

/-- The messages that a call leads to can be read back, and its time is at most a latest one. -/
def HistoryCall.Legible (latest : Nat) : HistoryCall → Prop
  | .record _ actor _ now _ => LegibleActor actor ∧ now ≤ latest
  | .flush _ now _ => ∀ time ∈ now, time ≤ latest
  | .move toPath actor _ now _ => LegiblePath toPath ∧ LegibleActor actor ∧ now ≤ latest

/-- The entries of a history have the times of their recordings: their windows began before, and
all times are below a clock. What is in memory has the time of its last recording. -/
structure FileHistory.Timed (history : FileHistory) (clock : Nat) (recordedAt : Nat → Nat) :
    Prop where
  formed : history.Formed
  files : ∀ commit ∈ history.commits, commit.folder = false
  dated : ∀ entry ∈ history.entries, entry.bucketStart ≤ recordedAt entry.id ∧
    recordedAt entry.id ≤ entry.updatedAt ∧ entry.updatedAt < clock
  recorded : ∀ entry ∈ history.pending, entry.updatedAt = recordedAt entry.id
  apart : ∀ left ∈ history.entries, ∀ right ∈ history.entries,
    recordedAt left.id = recordedAt right.id → left.id = right.id
  legible : ∀ entry ∈ history.entries, (entry.commitEntry hashContent).Legible

/-- What holds of a file between two calls up to a latest time: its moves are committed, and what
the log shows of it is older than what is in memory. -/
structure TrackedFile.Sound (latest : Nat) (file : TrackedFile) : Prop extends
    FileHistory.Timed hashContent file.history file.clock file.recordedAt where
  valid : validateVaultPath file.path .file = true
  shown : LegiblePath file.path
  unmoved : ∀ entry ∈ file.history.pending, entry.fromPath = none
  behind : ∀ entry ∈ file.history.pending, entry.path = file.path →
    ∀ item ∈ foundEntries file.path file.history.commits, item.2.updatedAt < entry.updatedAt
  rising : ∀ left ∈ foundEntries file.path file.history.commits,
    ∀ right ∈ foundEntries file.path file.history.commits,
      file.recordedAt right.2.id < file.recordedAt left.2.id →
        right.2.updatedAt ≤ left.2.updatedAt
  bounded : file.clock ≤ latest + 1

section Lists

variable {hashContent order} {latest : Nat} {file : TrackedFile}

theorem id_plainVersion_file (rel : JsString) (entry : PendingHistoryEntry) :
    (plainVersion hashContent rel (false, entry)).id = (pendingId entry.id).1 :=
  id_plainVersion rel (false, entry)

theorem pendingId_injective {left right : Nat} (same : (pendingId left).1 = (pendingId right).1) :
    left = right :=
  decimal_injective (List.append_cancel_left same)

theorem before_iff (reads : ∀ time ≤ latest, order.getTime (toISOString time) = time)
    {left right : PendingHistoryEntry} (rel : JsString) (first : left.bucketStart ≤ latest)
    (second : right.bucketStart ≤ latest) :
    order.before (plainVersion hashContent rel (false, left))
        (plainVersion hashContent rel (false, right)) = true ↔ order.Above left right := by
  unfold HistoryOrder.before HistoryOrder.Above
  rw [id_plainVersion_file, id_plainVersion_file]
  change (decide (order.getTime (toISOString right.bucketStart) <
      order.getTime (toISOString left.bucketStart)) ||
    (decide (order.getTime (toISOString right.bucketStart) =
      order.getTime (toISOString left.bucketStart)) && _)) = true ↔ _
  rw [reads _ first, reads _ second, Bool.or_eq_true, Bool.and_eq_true, decide_eq_true_iff,
    decide_eq_true_iff, Nat.cast_lt, Nat.cast_inj]

namespace TrackedFile.Sound

/-- The items of the list of a file are entries of its history. -/
theorem listed (sound : file.Sound hashContent latest) {item : ListedEntry}
    (member : item ∈ file.history.listedEntries file.path) :
    item.1 = false ∧ item.2 ∈ file.history.entries := by
  have pooled := (FileHistory.listedEntries_sublist file.history file.path).subset member
  refine ⟨?_, FileHistory.pool_entries file.history ▸ List.mem_map_of_mem pooled⟩
  rcases List.mem_append.mp pooled with pending | committed
  · obtain ⟨entry, _, rfl⟩ := List.mem_map.mp pending
    rfl
  · obtain ⟨commit, inCommits, rfl⟩ := List.mem_map.mp committed
    exact sound.files commit inCommits

theorem times_le (sound : file.Sound hashContent latest) {entry : PendingHistoryEntry}
    (member : entry ∈ file.history.entries) :
    entry.bucketStart ≤ latest ∧ entry.updatedAt ≤ latest := by
  have dated := sound.dated entry member
  have bounded := sound.bounded
  omega

/-- A version that was recorded later has no earlier time. -/
theorem updatedAt_le (sound : file.Sound hashContent latest) {left right : ListedEntry}
    (first : left ∈ file.history.listedEntries file.path)
    (second : right ∈ file.history.listedEntries file.path)
    (later : file.recordedAt right.2.id < file.recordedAt left.2.id) :
    right.2.updatedAt ≤ left.2.updatedAt := by
  rcases List.mem_append.mp first with newer | older
  · obtain ⟨entry, inFile, rfl⟩ := List.mem_map.mp newer
    obtain ⟨pending, here⟩ := List.mem_filter.mp inFile
    rcases List.mem_append.mp second with waiting | found
    · obtain ⟨other, inFile, rfl⟩ := List.mem_map.mp waiting
      have same := sound.recorded entry pending
      have alike := sound.recorded other (List.mem_filter.mp inFile).1
      dsimp only at later ⊢
      omega
    · exact (sound.behind entry pending (of_decide_eq_true here) right found).le
  · rcases List.mem_append.mp second with waiting | found
    · obtain ⟨other, inFile, rfl⟩ := List.mem_map.mp waiting
      obtain ⟨pending, here⟩ := List.mem_filter.mp inFile
      have behind := sound.behind other pending (of_decide_eq_true here) left older
      have same := sound.recorded other pending
      have dated := (sound.dated left.2 (sound.listed first).2).2.1
      dsimp only at later ⊢
      omega
    · exact sound.rising left older right found later

/-- What follows a version of the list was recorded earlier, and its time is not later. -/
theorem later_iff (sound : file.Sound hashContent latest) {left right : ListedEntry}
    (reads : ∀ time ≤ latest, order.getTime (toISOString time) = time)
    (first : left ∈ file.history.listedEntries file.path)
    (second : right ∈ file.history.listedEntries file.path) :
    file.Follows order (plainVersion hashContent file.path left)
        (plainVersion hashContent file.path right) ↔
      file.recordedAt right.2.id < file.recordedAt left.2.id := by
  obtain ⟨moved, entry⟩ := left
  obtain ⟨carried, other⟩ := right
  obtain ⟨rfl, inFirst⟩ := sound.listed first
  obtain ⟨rfl, inSecond⟩ := sound.listed second
  unfold TrackedFile.Follows
  rw [id_plainVersion_file, id_plainVersion_file]
  constructor
  · rintro ⟨⟨newer, older, same, alike, later⟩, _⟩
    rw [pendingId_injective same, pendingId_injective alike]
    exact later
  · intro later
    refine ⟨⟨_, _, rfl, rfl, later⟩, ?_⟩
    change order.getTime (toISOString other.updatedAt) ≤ order.getTime (toISOString entry.updatedAt)
    rw [reads _ (sound.times_le inFirst).2, reads _ (sound.times_le inSecond).2]
    exact Nat.cast_le.mpr (sound.updatedAt_le first second later)

/-- The list is in the order of the recordings exactly if every version belongs above those that
were recorded earlier. -/
theorem listsNewestFirst_iff (sound : file.Sound hashContent latest)
    (reads : ∀ time ≤ latest, order.getTime (toISOString time) = time) :
    file.ListsNewestFirst hashContent order ↔
      ∀ left ∈ file.history.listedEntries file.path,
        ∀ right ∈ file.history.listedEntries file.path,
          file.recordedAt right.2.id < file.recordedAt left.2.id →
            order.Above left.2 right.2 := by
  have legible : ∀ commit ∈ file.history.commits, commit.Legible hashContent := fun commit member =>
    HistoryCommit.legible_of_entry hashContent
      (sound.legible _ (List.mem_append_right _ (List.mem_map_of_mem member)))
  have shown : file.ListsNewestFirst hashContent order ↔
      (((file.history.listedEntries file.path).map (plainVersion hashContent file.path)).insertionSort
        fun left right => order.before left right = true).Pairwise (file.Follows order) := by
    rw [← newestFirst_plain sound.formed legible, List.pairwise_map]
    exact Iff.rfl
  have sorted := List.pairwise_insertionSort (fun left right => order.before left right = true)
    ((file.history.listedEntries file.path).map (plainVersion hashContent file.path))
  have perm := List.perm_insertionSort (fun left right => order.before left right = true)
    ((file.history.listedEntries file.path).map (plainVersion hashContent file.path))
  have above : ∀ left ∈ file.history.listedEntries file.path,
      ∀ right ∈ file.history.listedEntries file.path,
        (order.before (plainVersion hashContent file.path left)
          (plainVersion hashContent file.path right) = true ↔ order.Above left.2 right.2) := by
    rintro ⟨moved, entry⟩ first ⟨carried, other⟩ second
    obtain ⟨rfl, inFirst⟩ := sound.listed first
    obtain ⟨rfl, inSecond⟩ := sound.listed second
    exact before_iff reads file.path (sound.times_le inFirst).1
      (sound.times_le inSecond).1
  have numbered := (FileHistory.pool_distinct sound.formed).sublist
    ((FileHistory.listedEntries_sublist file.history file.path).map _)
  have same : ∀ left ∈ file.history.listedEntries file.path,
      ∀ right ∈ file.history.listedEntries file.path,
        (plainVersion hashContent file.path left).id =
          (plainVersion hashContent file.path right).id → left = right :=
    fun left first right second alike =>
      List.inj_on_of_nodup_map numbered first second (number_of_id alike)
  rw [shown]
  constructor
  · intro ordered left first right second later
    have apart : plainVersion hashContent file.path left ≠
        plainVersion hashContent file.path right := by
      intro alike
      rw [same left first right second (congrArg FileHistoryEntry.id alike)] at later
      exact Nat.lt_irrefl _ later
    let Either := fun left right : FileHistoryEntry =>
      (order.before left right = true ∧ file.Follows order left right) ∨
        (order.before right left = true ∧ file.Follows order right left)
    have either : Std.Symm Either := ⟨fun _ _ => Or.symm⟩
    have pairs := (sorted.and ordered).imp (S := Either) fun both => Or.inl both
    have both := pairs.forall (perm.mem_iff.mpr (List.mem_map_of_mem first))
      (perm.mem_iff.mpr (List.mem_map_of_mem second)) apart
    rcases both with ⟨before, _⟩ | ⟨_, follows⟩
    · exact (above left first right second).mp before
    · exact absurd ((sound.later_iff reads second first).mp follows) (Nat.lt_asymm later)
  · intro ranked
    have nodup : (((file.history.listedEntries file.path).map
        (plainVersion hashContent file.path)).insertionSort
          fun left right => order.before left right = true).Nodup :=
      perm.nodup_iff.mpr (List.Nodup.map_on
        (fun left first right second alike =>
          same left first right second (congrArg FileHistoryEntry.id alike))
        (List.Nodup.of_map _ numbered))
    refine List.Pairwise.imp_of_mem ?_ (sorted.and nodup)
    rintro version other inList alsoIn ⟨before, apart⟩
    obtain ⟨left, first, rfl⟩ := List.mem_map.mp (perm.mem_iff.mp inList)
    obtain ⟨right, second, rfl⟩ := List.mem_map.mp (perm.mem_iff.mp alsoIn)
    rw [sound.later_iff reads first second]
    rcases Nat.lt_trichotomy (file.recordedAt right.2.id) (file.recordedAt left.2.id) with
      later | alike | earlier
    · exact later
    · have number := sound.apart _ (sound.listed second).2 _ (sound.listed first).2 alike
      exact absurd (congrArg _ (List.inj_on_of_nodup_map numbered first second number.symm)) apart
    · have back := (above right second left first).mpr (ranked right second left first earlier)
      have alike := same left first right second (HistoryOrder.id_of_before before back)
      exact absurd (congrArg _ alike) apart

end TrackedFile.Sound

end Lists

section Walks

/-- A commit without a move is one of its own path only, and the walk stays on that path. -/
theorem walkStep_unmoved {entry : PendingHistoryEntry} (unmoved : entry.fromPath = none)
    (path : JsString) :
    (entry.path ≠ path ∧ entry.walkStep path = .passed) ∨
      (entry.path = path ∧
        (entry.walkStep path = .ended ∨ entry.walkStep path = .followed path)) := by
  unfold PendingHistoryEntry.walkStep HistoryCommit.walkStep HistoryCommit.scope
    HistoryCommit.recordedFromPath historyCommitScope
  dsimp only
  rw [unmoved, Option.toList_none]
  by_cases here : entry.path = path
  · refine .inr ⟨here, ?_⟩
    subst here
    rw [if_pos List.mem_cons_self, if_pos rfl]
    cases entry.operation with
    | create => exact .inl rfl
    | update => exact .inr rfl
    | move => exact .inl rfl
    | rename => exact .inl rfl
  · refine .inl ⟨here, ?_⟩
    rw [if_neg]
    rw [List.mem_singleton]
    exact fun same => here same.symm

/-- The commit of a moved file leads from where it is to where it was. -/
theorem walkStep_moved {entry : PendingHistoryEntry} {fromPath : JsString}
    (moved : entry.fromPath = some fromPath) (valid : validateVaultPath fromPath .file = true)
    (operation : entry.operation = .move ∨ entry.operation = .rename) :
    entry.walkStep entry.path = .followed fromPath := by
  unfold PendingHistoryEntry.walkStep HistoryCommit.walkStep HistoryCommit.scope
    HistoryCommit.recordedFromPath historyCommitScope
  dsimp only
  rw [moved, if_pos List.mem_cons_self, if_pos rfl]
  have whole : (if ([] : JsString).isEmpty = true then fromPath else fromPath ++ [slash]) =
      fromPath := if_pos rfl
  rcases operation with same | same <;> rw [same] <;> dsimp only <;>
    rw [if_neg (by decide), whole, if_pos valid] <;> rfl

variable {fresh commits : List HistoryCommit}

/-- Commits without moves add to what a walk finds nothing but their own entries of its path. -/
theorem foundEntries_unmoved
    (steps : ∀ commit ∈ fresh, ∀ path, commit.walkStep path = commit.entry.walkStep path)
    (files : ∀ commit ∈ fresh, commit.folder = false)
    (unmoved : ∀ commit ∈ fresh, commit.entry.fromPath = none) {path : JsString}
    {item : ListedEntry} (member : item ∈ foundEntries path (fresh ++ commits)) :
    (∃ commit ∈ fresh, commit.entry.path = path ∧ item = (false, commit.entry)) ∨
      item ∈ foundEntries path commits := by
  induction fresh with
  | nil => exact .inr member
  | cons commit older ih =>
      have own : commit.listed = (false, commit.entry) := by
        rw [HistoryCommit.listed, files commit List.mem_cons_self]
      have rest := ih (fun other inOlder => steps other (List.mem_cons_of_mem _ inOlder))
        (fun other inOlder => files other (List.mem_cons_of_mem _ inOlder))
        (fun other inOlder => unmoved other (List.mem_cons_of_mem _ inOlder))
      have later : (∃ other ∈ older, other.entry.path = path ∧ item = (false, other.entry)) ∨
          item ∈ foundEntries path commits →
            (∃ other ∈ commit :: older, other.entry.path = path ∧ item = (false, other.entry)) ∨
              item ∈ foundEntries path commits :=
        Or.imp_left fun ⟨other, inOlder, facts⟩ => ⟨other, List.mem_cons_of_mem _ inOlder, facts⟩
      rw [List.cons_append, foundEntries_cons, steps commit List.mem_cons_self] at member
      rcases walkStep_unmoved (unmoved commit List.mem_cons_self) path with
        ⟨_, passed⟩ | ⟨here, ended | followed⟩
      · rw [passed] at member
        exact later (rest member)
      · rw [ended] at member
        exact .inl ⟨commit, List.mem_cons_self, here, own ▸ List.mem_singleton.mp member⟩
      · rw [followed] at member
        rcases List.mem_cons.mp member with rfl | found
        · exact .inl ⟨commit, List.mem_cons_self, here, own⟩
        · exact later (rest found)

/-- Commits of other paths are passed. -/
theorem foundEntries_elsewhere
    (steps : ∀ commit ∈ fresh, ∀ path, commit.walkStep path = commit.entry.walkStep path)
    (unmoved : ∀ commit ∈ fresh, commit.entry.fromPath = none) {path : JsString}
    (elsewhere : ∀ commit ∈ fresh, commit.entry.path ≠ path) :
    foundEntries path (fresh ++ commits) = foundEntries path commits := by
  induction fresh with
  | nil => rfl
  | cons commit older ih =>
      rw [List.cons_append, foundEntries_cons, steps commit List.mem_cons_self]
      rcases walkStep_unmoved (unmoved commit List.mem_cons_self) path with
        ⟨_, passed⟩ | ⟨here, _⟩
      · rw [passed]
        exact ih (fun other inOlder => steps other (List.mem_cons_of_mem _ inOlder))
          (fun other inOlder => unmoved other (List.mem_cons_of_mem _ inOlder))
          (fun other inOlder => elsewhere other (List.mem_cons_of_mem _ inOlder))
      · exact absurd here (elsewhere commit List.mem_cons_self)

end Walks

theorem bucketStart_le (now windowMs : Nat) : bucketStart now windowMs ≤ now := by
  rw [bucketStart]
  split
  · exact Nat.le_refl _
  · exact Nat.div_mul_le_self _ _

section Record

variable {history : FileHistory} {input : RecordFileHistoryInput}

/-- What the entry of a recording is: that of its window with the recording on top of it, or a new
one. -/
theorem recorded_cases (history : FileHistory) (input : RecordFileHistoryInput) :
    (∃ existing ∈ history.pending,
        existing.hasKey input.path (bucketStart input.now input.coalesceWindowMs) = true ∧
          (history.recordFileHistory input).2 = existing.revise input ∧
          existing.id = history.recordId input.path
            (bucketStart input.now input.coalesceWindowMs)) ∨
      ((∀ entry ∈ history.pending,
          entry.hasKey input.path (bucketStart input.now input.coalesceWindowMs) = false) ∧
        (history.recordFileHistory input).2 = history.newEntry input ∧
          history.nextId = history.recordId input.path
            (bucketStart input.now input.coalesceWindowMs)) := by
  unfold FileHistory.recordFileHistory FileHistory.recordId
  dsimp only
  cases found : history.pending.find? fun entry =>
      entry.hasKey input.path (bucketStart input.now input.coalesceWindowMs) with
  | none =>
      refine .inr ⟨fun entry member => ?_, rfl, rfl⟩
      exact Bool.eq_false_iff.mpr (List.find?_eq_none.mp found entry member)
  | some existing =>
      have key := List.find?_some found
      exact .inl ⟨existing, List.mem_of_find?_eq_some found, key, rfl, rfl⟩

/-- The recorded entry stands for its window at the time of the recording. -/
theorem recorded_fields (history : FileHistory) (input : RecordFileHistoryInput) :
    (history.recordFileHistory input).2.path = input.path ∧
      (history.recordFileHistory input).2.bucketStart =
        bucketStart input.now input.coalesceWindowMs ∧
      (history.recordFileHistory input).2.updatedAt = input.now ∧
      (history.recordFileHistory input).2.id =
        history.recordId input.path (bucketStart input.now input.coalesceWindowMs) := by
  obtain ⟨file, window⟩ := Prod.mk.inj (FileHistory.hasKey_iff.mp (FileHistory.mem_recorded history input).2.1)
  refine ⟨file, window, ?_, ?_⟩
  · rcases recorded_cases history input with ⟨_, _, _, same, _⟩ | ⟨_, same, _⟩ <;> rw [same] <;> rfl
  · rcases recorded_cases history input with ⟨_, _, _, same, number⟩ | ⟨_, same, number⟩ <;>
      rw [same] <;> exact number

/-- In memory are the recorded entry and those of other windows. -/
theorem mem_pending_record (keyed : history.Keyed) {entry : PendingHistoryEntry} :
    entry ∈ (history.recordFileHistory input).1.pending ↔
      entry = (history.recordFileHistory input).2 ∨
        entry ∈ history.pending ∧
          entry.hasKey input.path (bucketStart input.now input.coalesceWindowMs) = false := by
  constructor
  · intro member
    by_cases key : entry.hasKey input.path (bucketStart input.now input.coalesceWindowMs) = true
    · obtain ⟨recorded, alike, _⟩ := FileHistory.mem_recorded history input
      exact .inl (List.inj_on_of_nodup_map (FileHistory.keyed_record keyed input) member recorded
        ((FileHistory.hasKey_iff.mp key).trans (FileHistory.hasKey_iff.mp alike).symm))
    · refine .inr ⟨?_, Bool.eq_false_iff.mpr key⟩
      unfold FileHistory.recordFileHistory at member
      dsimp only at member
      split at member
      · obtain ⟨old, listed, rfl⟩ := List.mem_map.mp member
        by_cases own : old.hasKey input.path (bucketStart input.now input.coalesceWindowMs) = true
        · rw [if_pos own] at key
          exact absurd own key
        · rw [if_neg own]
          exact listed
      · rcases List.mem_append.mp member with old | new
        · exact old
        · rw [List.mem_singleton.mp new] at key
          exact absurd (FileHistory.hasKey_iff.mpr rfl) key
  · rintro (rfl | ⟨listed, other⟩)
    · exact (FileHistory.mem_recorded history input).1
    · have kept := FileHistory.mem_record input listed
      rwa [if_neg (Bool.eq_false_iff.mp other)] at kept

/-- The entries after a recording are the recorded one and others that were there before. -/
theorem mem_entries_record (formed : history.Formed) {entry : PendingHistoryEntry}
    (member : entry ∈ (history.recordFileHistory input).1.entries) :
    entry = (history.recordFileHistory input).2 ∨
      entry ∈ history.entries ∧ entry.id ≠ (history.recordFileHistory input).2.id := by
  by_cases same : entry = (history.recordFileHistory input).2
  · exact .inl same
  · have numbered := (FileHistory.formed_record formed input).numbered.1
    have recorded := List.mem_append_left
      ((history.recordFileHistory input).1.commits.map HistoryCommit.entry)
      (FileHistory.mem_recorded history input).1
    refine .inr ⟨?_, fun alike => same (List.inj_on_of_nodup_map numbered member recorded alike)⟩
    rcases List.mem_append.mp member with pending | committed
    · rcases (mem_pending_record formed.keyed).mp pending with rfl | ⟨listed, _⟩
      · exact absurd rfl same
      · exact List.mem_append_left _ listed
    · rw [FileHistory.commits_record] at committed
      exact List.mem_append_right _ committed

/-- An entry of the window of a recording has the number of the recorded entry. -/
theorem id_of_hasKey (keyed : history.Keyed) {entry : PendingHistoryEntry}
    (member : entry ∈ history.pending)
    (key : entry.hasKey input.path (bucketStart input.now input.coalesceWindowMs) = true) :
    entry.id = (history.recordFileHistory input).2.id := by
  rcases recorded_cases history input with ⟨existing, listed, own, same, _⟩ | ⟨none, _⟩
  · rw [same, List.inj_on_of_nodup_map keyed member listed
      ((FileHistory.hasKey_iff.mp key).trans (FileHistory.hasKey_iff.mp own).symm)]
    rfl
  · exact absurd key (Bool.eq_false_iff.mp (none entry member))

/-- A path lists the recorded entry and the others that it listed before. -/
theorem mem_listedEntries_record (formed : history.Formed) {item : ListedEntry} :
    item ∈ (history.recordFileHistory input).1.listedEntries input.path ↔
      item = (false, (history.recordFileHistory input).2) ∨
        item ∈ history.listedEntries input.path ∧
          item.2.id ≠ (history.recordFileHistory input).2.id := by
  have next := FileHistory.formed_record formed input
  have recorded : (false, (history.recordFileHistory input).2) ∈
      (history.recordFileHistory input).1.listedEntries input.path := by
    refine List.mem_append_left _ (List.mem_map_of_mem (List.mem_filter.mpr
      ⟨(FileHistory.mem_recorded history input).1, ?_⟩))
    exact decide_eq_true (recorded_fields history input).1
  constructor
  · intro member
    by_cases same : item.2.id = (history.recordFileHistory input).2.id
    · refine .inl (List.inj_on_of_nodup_map (FileHistory.pool_distinct next) ?_ ?_ same)
      · exact (FileHistory.listedEntries_sublist _ _).subset member
      · exact (FileHistory.listedEntries_sublist _ _).subset recorded
    · refine .inr ⟨?_, same⟩
      rcases List.mem_append.mp member with waiting | found
      · obtain ⟨entry, inFile, rfl⟩ := List.mem_map.mp waiting
        obtain ⟨pending, here⟩ := List.mem_filter.mp inFile
        rcases (mem_pending_record formed.keyed).mp pending with rfl | ⟨listed, _⟩
        · exact absurd rfl same
        · exact List.mem_append_left _ (List.mem_map_of_mem (List.mem_filter.mpr ⟨listed, here⟩))
      · rw [FileHistory.commits_record] at found
        exact List.mem_append_right _ found
  · rintro (rfl | ⟨member, apart⟩)
    · exact recorded
    · rcases List.mem_append.mp member with waiting | found
      · obtain ⟨entry, inFile, rfl⟩ := List.mem_map.mp waiting
        obtain ⟨pending, here⟩ := List.mem_filter.mp inFile
        refine List.mem_append_left _ (List.mem_map_of_mem (List.mem_filter.mpr ⟨?_, here⟩))
        refine (mem_pending_record formed.keyed).mpr (.inr ⟨pending, ?_⟩)
        exact Bool.eq_false_iff.mpr fun key => apart (id_of_hasKey formed.keyed pending key)
      · refine List.mem_append_right _ ?_
        rw [FileHistory.commits_record]
        exact found

/-- A commit can be read back if what it shows of its paths and contributors can. -/
theorem legible_iff {entry : PendingHistoryEntry} :
    (entry.commitEntry hashContent).Legible ↔
      LegiblePath entry.path ∧ (∀ fromPath ∈ entry.fromPath, LegiblePath fromPath) ∧
        ∀ actor ∈ entry.contributors, LegibleActor actor := by
  constructor
  · intro legible
    refine ⟨legible.path, legible.fromPath, fun actor member => ?_⟩
    obtain ⟨label, members⟩ := legible.contributors actor member
    exact ⟨label, members, legible.labels actor member⟩
  · rintro ⟨path, fromPath, contributors⟩
    exact ⟨path, fromPath, fun actor member =>
      ⟨(contributors actor member).1, (contributors actor member).2.1⟩,
      fun actor member => (contributors actor member).2.2⟩

/-- The commit of a recorded entry can be read back if the recording can and what was in memory. -/
theorem legible_recorded (known : ∀ entry ∈ history.entries, (entry.commitEntry hashContent).Legible)
    (path : LegiblePath input.path) (actor : LegibleActor input.actor) :
    ((history.recordFileHistory input).2.commitEntry hashContent).Legible := by
  rcases recorded_cases history input with ⟨existing, listed, _, same, _⟩ | ⟨_, same, _⟩
  · obtain ⟨file, source, contributors⟩ :=
      (legible_iff hashContent).mp (known existing (List.mem_append_left _ listed))
    rw [same, legible_iff]
    refine ⟨file, source, fun other member => ?_⟩
    rcases mem_addContributor.mp member with old | rfl
    · exact contributors other old
    · exact actor
  · rw [same, legible_iff]
    refine ⟨path, nofun, fun other member => ?_⟩
    rw [List.mem_singleton.mp member]
    exact actor

end Record

section Flush

variable {history next : FileHistory} {selected : List PendingHistoryEntry} {now : Option Nat}

theorem mem_stamp {entry : PendingHistoryEntry} (member : entry ∈ (history.stamp selected now).pending) :
    ∃ old ∈ history.pending, entry = if old ∈ selected then old.stamp now else old := by
  obtain ⟨old, listed, rfl⟩ := List.mem_map.mp member
  exact ⟨old, listed, rfl⟩

theorem formed_stamp (formed : history.Formed) (selected : List PendingHistoryEntry)
    (now : Option Nat) : (history.stamp selected now).Formed := by
  have ids : (history.stamp selected now).pending.map PendingHistoryEntry.id =
      history.pending.map PendingHistoryEntry.id := by
    rw [FileHistory.stamp, List.map_map]
    refine List.map_congr_left fun entry _ => ?_
    dsimp only [Function.comp]
    split <;> rfl
  have all : (history.stamp selected now).entries.map PendingHistoryEntry.id =
      history.entries.map PendingHistoryEntry.id := by
    rw [FileHistory.entries, List.map_append, ids, ← List.map_append]
    rfl
  constructor
  case keyed =>
    have keyed := formed.keyed
    unfold FileHistory.Keyed FileHistory.stamp at *
    rw [List.map_map]
    refine Eq.mp (congrArg List.Nodup (List.map_congr_left fun entry _ => ?_)) keyed
    dsimp only [Function.comp]
    split <;> rfl
  case numbered =>
    refine ⟨all ▸ formed.numbered.1, fun entry member => ?_⟩
    obtain ⟨old, listed, same⟩ := List.mem_map.mp (all ▸ List.mem_map_of_mem member)
    rw [← same]
    exact formed.numbered.2 old listed
  case distinct => exact formed.distinct
  case counted => exact formed.counted
  case formed =>
    intro entry member
    rcases List.mem_append.mp member with pending | committed
    · obtain ⟨old, listed, rfl⟩ := mem_stamp pending
      have before := formed.formed old (List.mem_append_left _ listed)
      split
      · exact ⟨before.dated, before.credited⟩
      · exact before
    · exact formed.formed entry (List.mem_append_right _ committed)

/-- A flush commits what it selects in the order of the last recordings. -/
theorem selected_sorted (history : FileHistory) (paths : Option (List JsString)) :
    (history.selectPendingEntries paths).Pairwise fun left right =>
      left.updatedAt ≤ right.updatedAt := by
  have total : Std.Total fun left right : PendingHistoryEntry => left.updatedAt ≤ right.updatedAt :=
    ⟨fun left right => Nat.le_total _ _⟩
  have trans : IsTrans PendingHistoryEntry fun left right => left.updatedAt ≤ right.updatedAt :=
    ⟨fun _ _ _ => Nat.le_trans⟩
  exact List.pairwise_insertionSort _ _

/-- A flush commits what it selects, with its time. -/
theorem committed_flushAt (formed : history.Formed) (paths : Option (List JsString))
    (now : Option Nat) (committedAt : PendingHistoryEntry → Nat) :
    ∃ fresh, (history.stamp (history.selectPendingEntries paths) now).Committed
      ((history.selectPendingEntries paths).map (PendingHistoryEntry.stamp now)) fresh
      (history.flushAt paths now committedAt) := by
  have committed := @FileHistory.committed_commitAll
    ((history.selectPendingEntries paths).map fun entry => (entry.stamp now, committedAt entry))
    (history.stamp (history.selectPendingEntries paths) now) (formed_stamp formed _ now)
  rw [List.map_map] at committed
  refine committed ?_ ?_
  · intro entry member
    obtain ⟨old, listed, rfl⟩ := List.mem_map.mp member
    refine List.mem_map.mpr ⟨old, (FileHistory.mem_selectPendingEntries.mp listed).1, if_pos listed⟩
  · rw [List.map_map]
    exact FileHistory.selectPendingEntries_distinct formed.keyed paths

/-- What stays in memory after a flush is what was not selected. -/
theorem mem_pending_flushAt (formed : history.Formed) {paths : Option (List JsString)}
    {fresh : List HistoryCommit}
    (committed : (history.stamp (history.selectPendingEntries paths) now).Committed
      ((history.selectPendingEntries paths).map (PendingHistoryEntry.stamp now)) fresh next)
    {entry : PendingHistoryEntry} (member : entry ∈ next.pending) :
    entry ∈ history.pending ∧ entry ∉ history.selectPendingEntries paths := by
  have stamped : entry ∈ (history.stamp (history.selectPendingEntries paths) now).pending :=
    committed.pending.mem_iff.mpr (List.mem_append_right _ member)
  obtain ⟨old, listed, same⟩ := mem_stamp stamped
  by_cases flushed : old ∈ history.selectPendingEntries paths
  · rw [if_pos flushed] at same
    have nodup := committed.pending.nodup_iff.mp
      (List.Nodup.of_map _ (formed_stamp formed (history.selectPendingEntries paths) now).keyed)
    have twice := (List.nodup_append.mp nodup).2.2 (old.stamp now) (List.mem_map_of_mem flushed)
      entry member
    exact absurd same.symm twice
  · rw [if_neg flushed] at same
    rw [same]
    exact ⟨listed, flushed⟩

/-- Every commit of a flush is that of a selected entry, with the time of the flush. -/
theorem entry_of_fresh {paths : Option (List JsString)} {fresh : List HistoryCommit}
    (committed : (history.stamp (history.selectPendingEntries paths) now).Committed
      ((history.selectPendingEntries paths).map (PendingHistoryEntry.stamp now)) fresh next)
    {commit : HistoryCommit} (member : commit ∈ fresh) :
    ∃ entry ∈ history.selectPendingEntries paths, commit.entry = entry.stamp now := by
  have listed : commit.entry ∈ fresh.map HistoryCommit.entry := List.mem_map_of_mem member
  rw [committed.entries, List.mem_reverse] at listed
  obtain ⟨entry, inSelected, same⟩ := List.mem_map.mp listed
  exact ⟨entry, inSelected, same.symm⟩

/-- The entries after a flush are those from before, the selected ones with its time. -/
theorem mem_entries_flushAt (formed : history.Formed) {paths : Option (List JsString)}
    {fresh : List HistoryCommit}
    (committed : (history.stamp (history.selectPendingEntries paths) now).Committed
      ((history.selectPendingEntries paths).map (PendingHistoryEntry.stamp now)) fresh next)
    {entry : PendingHistoryEntry} (member : entry ∈ next.entries) :
    entry ∈ history.entries ∨ ∃ old ∈ history.pending, entry = old.stamp now := by
  rcases List.mem_append.mp member with pending | inCommits
  · exact .inl (List.mem_append_left _ (mem_pending_flushAt formed committed pending).1)
  · obtain ⟨commit, listed, rfl⟩ := List.mem_map.mp inCommits
    rw [committed.commits] at listed
    rcases List.mem_append.mp listed with new | old
    · obtain ⟨entry, inSelected, same⟩ := entry_of_fresh committed new
      exact .inr ⟨entry, (FileHistory.mem_selectPendingEntries.mp inSelected).1, same⟩
    · exact .inl (List.mem_append_right _ (List.mem_map_of_mem old))

theorem updatedAt_le_stamp {entry : PendingHistoryEntry}
    (later : ∀ time ∈ now, entry.updatedAt ≤ time) : entry.updatedAt ≤ (entry.stamp now).updatedAt := by
  cases now with
  | none => exact Nat.le_refl _
  | some time => exact later time rfl

end Flush

section Times

variable {hashContent} {history : FileHistory} {clock : Nat} {recordedAt : Nat → Nat}
  {input : RecordFileHistoryInput}

/-- A recording has the greatest time of all. -/
theorem FileHistory.Timed.record (timed : history.Timed hashContent clock recordedAt)
    (later : clock ≤ input.now) (path : LegiblePath input.path) (actor : LegibleActor input.actor) :
    (history.recordFileHistory input).1.Timed hashContent (input.now + 1)
      (Function.update recordedAt (history.recordFileHistory input).2.id input.now) := by
  obtain ⟨_, window, time, _⟩ := recorded_fields history input
  have cases : ∀ entry ∈ (history.recordFileHistory input).1.entries,
      entry = (history.recordFileHistory input).2 ∨
        entry ∈ history.entries ∧ entry.id ≠ (history.recordFileHistory input).2.id :=
    fun entry => mem_entries_record timed.formed
  have other : ∀ {entry : PendingHistoryEntry},
      entry.id ≠ (history.recordFileHistory input).2.id →
        Function.update recordedAt (history.recordFileHistory input).2.id input.now entry.id =
          recordedAt entry.id := fun apart => Function.update_of_ne apart _ _
  constructor
  case formed => exact FileHistory.formed_record timed.formed input
  case files =>
    rw [FileHistory.commits_record]
    exact timed.files
  case dated =>
    intro entry member
    rcases cases entry member with rfl | ⟨old, apart⟩
    · rw [Function.update_self, window, time]
      exact ⟨bucketStart_le _ _, Nat.le_refl _, Nat.lt_succ_self _⟩
    · rw [other apart]
      have dated := timed.dated entry old
      omega
  case recorded =>
    intro entry member
    rcases cases entry (List.mem_append_left _ member) with rfl | ⟨old, apart⟩
    · rw [Function.update_self, time]
    · rw [other apart]
      rcases (mem_pending_record timed.formed.keyed).mp member with rfl | ⟨listed, _⟩
      · exact absurd rfl apart
      · exact timed.recorded entry listed
  case apart =>
    intro left first right second same
    rcases cases left first with rfl | ⟨old, apart⟩
    · rcases cases right second with rfl | ⟨old, apart⟩
      · rfl
      · rw [Function.update_self, other apart] at same
        have dated := timed.dated right old
        omega
    · rw [other apart] at same
      rcases cases right second with rfl | ⟨older, alone⟩
      · rw [Function.update_self] at same
        have dated := timed.dated left old
        omega
      · rw [other alone] at same
        exact timed.apart left old right older same
  case legible =>
    intro entry member
    rcases cases entry member with rfl | ⟨old, _⟩
    · exact legible_recorded hashContent timed.legible path actor
    · exact timed.legible entry old

/-- A flush whose time is not earlier than any other keeps the times of the recordings. -/
theorem FileHistory.Timed.flush (timed : history.Timed hashContent clock recordedAt)
    (paths : Option (List JsString)) {now : Option Nat} (committedAt : PendingHistoryEntry → Nat)
    {after : Nat} (within : clock ≤ after)
    (later : ∀ time ∈ now, time < after ∧ ∀ entry ∈ history.entries, entry.updatedAt ≤ time) :
    (history.flushAt paths now committedAt).Timed hashContent after recordedAt := by
  obtain ⟨fresh, committed⟩ := committed_flushAt timed.formed paths now committedAt
  have cases : ∀ entry ∈ (history.flushAt paths now committedAt).entries, entry ∈ history.entries ∨
      ∃ old ∈ history.pending, entry = old.stamp now :=
    fun entry => mem_entries_flushAt timed.formed committed
  have number : ∀ entry ∈ (history.flushAt paths now committedAt).entries,
      ∃ old ∈ history.entries, entry.id = old.id := by
    intro entry member
    rcases cases entry member with old | ⟨old, listed, rfl⟩
    · exact ⟨entry, old, rfl⟩
    · exact ⟨old, List.mem_append_left _ listed, rfl⟩
  constructor
  case formed => exact committed.formed
  case files =>
    intro commit member
    rw [committed.commits] at member
    rcases List.mem_append.mp member with new | old
    · exact committed.files commit new
    · exact timed.files commit old
  case dated =>
    intro entry member
    rcases cases entry member with old | ⟨old, listed, rfl⟩
    · have dated := timed.dated entry old
      omega
    · have known := List.mem_append_left (history.commits.map HistoryCommit.entry) listed
      have dated := timed.dated old known
      have grown : old.updatedAt ≤ (old.stamp now).updatedAt :=
        updatedAt_le_stamp fun time given => (later time given).2 old known
      refine ⟨dated.1, dated.2.1.trans grown, ?_⟩
      cases now with
      | none => exact Nat.lt_of_lt_of_le dated.2.2 within
      | some time => exact (later time rfl).1
  case recorded =>
    intro entry member
    exact timed.recorded entry (mem_pending_flushAt timed.formed committed member).1
  case apart =>
    intro left first right second same
    obtain ⟨old, known, alike⟩ := number left first
    obtain ⟨other, listed, equal⟩ := number right second
    rw [alike, equal] at same ⊢
    exact timed.apart old known other listed same
  case legible =>
    intro entry member
    rcases cases entry member with old | ⟨old, listed, rfl⟩
    · exact timed.legible entry old
    · have known := (legible_iff hashContent).mp
        (timed.legible old (List.mem_append_left _ listed))
      exact (legible_iff hashContent).mpr known

end Times

namespace TrackedFile.Sound

variable {hashContent order} {latest : Nat} {file : TrackedFile} {input : RecordFileHistoryInput}

/-- The file after a recording. -/
abbrev afterRecord (file : TrackedFile) (input : RecordFileHistoryInput) : TrackedFile :=
  ⟨(file.history.recordFileHistory input).1, file.path, input.now + 1, file.recordAt input⟩

/-- The times of what the log shows stay when an entry is recorded. -/
theorem recordAt_found (sound : file.Sound hashContent latest) {path : JsString} {item : ListedEntry}
    (found : item ∈ foundEntries path file.history.commits) :
    file.recordAt input item.2.id = file.recordedAt item.2.id := by
  refine Function.update_of_ne (fun same => ?_) _ _
  have committed : item.2 ∈ file.history.commits.map HistoryCommit.entry := by
    obtain ⟨commit, member, rfl⟩ :=
      List.mem_map.mp ((foundEntries_sublist path file.history.commits).subset found)
    exact List.mem_map_of_mem member
  have numbered := (FileHistory.formed_record sound.formed input).numbered.1
  rw [FileHistory.entries, FileHistory.commits_record, List.map_append, List.nodup_append] at numbered
  exact numbered.2.2 _ (List.mem_map_of_mem (FileHistory.mem_recorded file.history input).1) _
    (List.mem_map_of_mem committed) same.symm

/-- Recording keeps a file sound. -/
theorem record (sound : file.Sound hashContent latest) (own : input.path = file.path)
    (later : file.clock ≤ input.now) (bounded : input.now ≤ latest)
    (actor : LegibleActor input.actor) : (afterRecord file input).Sound hashContent latest where
  toTimed := sound.toTimed.record later (own ▸ sound.shown) actor
  valid := sound.valid
  shown := sound.shown
  unmoved := by
    intro entry member
    rcases (mem_pending_record sound.formed.keyed).mp member with rfl | ⟨listed, _⟩
    · rcases recorded_cases file.history input with ⟨existing, listed, _, same, _⟩ | ⟨_, same, _⟩
      · rw [same]
        exact sound.unmoved existing listed
      · rw [same]
        rfl
    · exact sound.unmoved entry listed
  behind := by
    intro entry member here item found
    change item ∈ foundEntries file.path (file.history.recordFileHistory input).1.commits at found
    rw [FileHistory.commits_record] at found
    rcases (mem_pending_record sound.formed.keyed).mp member with rfl | ⟨listed, _⟩
    · have committed := (sound.dated item.2 (sound.listed (List.mem_append_right _ found)).2).2.2
      have time := (recorded_fields file.history input).2.2.1
      omega
    · exact sound.behind entry listed here item found
  rising := by
    intro left first right second newer
    change left ∈ foundEntries file.path (file.history.recordFileHistory input).1.commits at first
    change right ∈ foundEntries file.path (file.history.recordFileHistory input).1.commits at second
    rw [FileHistory.commits_record] at first second
    change file.recordAt input _ < file.recordAt input _ at newer
    rw [sound.recordAt_found first, sound.recordAt_found second] at newer
    exact sound.rising left first right second newer
  bounded := Nat.succ_le_succ bounded

/-- A recording keeps the order of the list exactly if it belongs above the other versions. -/
theorem record_newest_iff (sound : file.Sound hashContent latest) (own : input.path = file.path)
    (later : file.clock ≤ input.now) (bounded : input.now ≤ latest)
    (actor : LegibleActor input.actor)
    (reads : ∀ time ≤ latest, order.getTime (toISOString time) = time)
    (ordered : file.ListsNewestFirst hashContent order) :
    (afterRecord file input).ListsNewestFirst hashContent order ↔
      ∀ item ∈ file.history.listedEntries file.path,
        item.2.id ≠ (file.history.recordFileHistory input).2.id →
          order.Above (file.history.recordFileHistory input).2 item.2 := by
  rw [(sound.record own later bounded actor).listsNewestFirst_iff reads]
  rw [sound.listsNewestFirst_iff reads] at ordered
  have listed : ∀ item : ListedEntry,
      item ∈ (file.history.recordFileHistory input).1.listedEntries file.path ↔
        item = (false, (file.history.recordFileHistory input).2) ∨
          item ∈ file.history.listedEntries file.path ∧
            item.2.id ≠ (file.history.recordFileHistory input).2.id := by
    intro item
    rw [← own]
    exact mem_listedEntries_record sound.formed
  have older : ∀ item ∈ file.history.listedEntries file.path,
      file.recordedAt item.2.id < input.now := by
    intro item member
    have dated := sound.dated item.2 (sound.listed member).2
    omega
  have other : ∀ {item : ListedEntry}, item.2.id ≠ (file.history.recordFileHistory input).2.id →
      (afterRecord file input).recordedAt item.2.id = file.recordedAt item.2.id :=
    fun apart => Function.update_of_ne apart _ _
  have own : (afterRecord file input).recordedAt (file.history.recordFileHistory input).2.id =
      input.now := Function.update_self _ _ _
  constructor
  · intro ranked item member apart
    refine ranked (false, _) ((listed _).mpr (.inl rfl)) item ((listed _).mpr (.inr ⟨member, apart⟩))
      ?_
    rw [own, other apart]
    exact older item member
  · intro top left first right second newer
    rcases (listed _).mp first with rfl | ⟨old, apart⟩
    · rcases (listed _).mp second with rfl | ⟨older, alone⟩
      · exact absurd newer (Nat.lt_irrefl _)
      · exact top right older alone
    · rcases (listed _).mp second with rfl | ⟨others, alone⟩
      · rw [own, other apart] at newer
        exact absurd (older left old) (Nat.lt_asymm newer)
      · rw [other apart, other alone] at newer
        exact ordered left old right others newer

/-- Commits of what is in memory, with the time of a flush. -/
structure Flushed (file : TrackedFile) (now : Option Nat) (fresh : List HistoryCommit) : Prop where
  steps : ∀ commit ∈ fresh, ∀ path, commit.walkStep path = commit.entry.walkStep path
  files : ∀ commit ∈ fresh, commit.folder = false
  entries : ∀ commit ∈ fresh, ∃ old ∈ file.history.pending, commit.entry = old.stamp now
  later : ∀ time ∈ now, ∀ entry ∈ file.history.entries, entry.updatedAt ≤ time

namespace Flushed

variable {now : Option Nat} {fresh : List HistoryCommit}

theorem unmoved (flushed : Flushed file now fresh) (sound : file.Sound hashContent latest) :
    ∀ commit ∈ fresh, commit.entry.fromPath = none := by
  intro commit member
  obtain ⟨old, listed, same⟩ := flushed.entries commit member
  rw [same]
  exact sound.unmoved old listed

/-- What the log shows of a file after a flush is what was in memory or in the log. -/
theorem origin (flushed : Flushed file now fresh) (sound : file.Sound hashContent latest)
    {item : ListedEntry} (found : item ∈ foundEntries file.path (fresh ++ file.history.commits)) :
    (∃ old ∈ file.history.pending, old.path = file.path ∧ item = (false, old.stamp now)) ∨
      item ∈ foundEntries file.path file.history.commits := by
  rcases foundEntries_unmoved flushed.steps flushed.files (flushed.unmoved sound) found with
    ⟨commit, member, here, rfl⟩ | older
  · obtain ⟨old, listed, same⟩ := flushed.entries commit member
    rw [same] at here ⊢
    exact .inl ⟨old, listed, here, rfl⟩
  · exact .inr older

/-- What the log shows of a file after a flush was listed before, with the same window. -/
theorem listed (flushed : Flushed file now fresh) (sound : file.Sound hashContent latest)
    {item : ListedEntry} (found : item ∈ foundEntries file.path (fresh ++ file.history.commits)) :
    ∃ old ∈ file.history.listedEntries file.path, item.2.id = old.2.id ∧
      item.2.bucketStart = old.2.bucketStart := by
  rcases flushed.origin sound found with ⟨old, member, here, rfl⟩ | older
  · exact ⟨(false, old), List.mem_append_left _ (List.mem_map_of_mem
      (List.mem_filter.mpr ⟨member, decide_eq_true here⟩)), rfl, rfl⟩
  · exact ⟨item, List.mem_append_right _ older, rfl, rfl⟩

/-- The times in the log are in the order of the recordings after a flush as well. -/
theorem rising (flushed : Flushed file now fresh) (sound : file.Sound hashContent latest)
    {left right : ListedEntry}
    (first : left ∈ foundEntries file.path (fresh ++ file.history.commits))
    (second : right ∈ foundEntries file.path (fresh ++ file.history.commits))
    (newer : file.recordedAt right.2.id < file.recordedAt left.2.id) :
    right.2.updatedAt ≤ left.2.updatedAt := by
  rcases flushed.origin sound first with ⟨old, member, here, rfl⟩ | older
  · have known := List.mem_append_left (file.history.commits.map HistoryCommit.entry) member
    have grown : old.updatedAt ≤ (old.stamp now).updatedAt :=
      updatedAt_le_stamp fun time given => flushed.later time given old known
    rcases flushed.origin sound second with ⟨other, listed, _, rfl⟩ | found
    · have same := sound.recorded old member
      have alike := sound.recorded other listed
      cases now with
      | none =>
          change file.recordedAt other.id < file.recordedAt old.id at newer
          change other.updatedAt ≤ old.updatedAt
          omega
      | some time => exact Nat.le_refl _
    · exact (sound.behind old member here right found).le.trans grown
  · rcases flushed.origin sound second with ⟨other, listed, here, rfl⟩ | found
    · have behind := sound.behind other listed here left older
      have same := sound.recorded other listed
      have dated := (sound.dated left.2 (sound.listed (List.mem_append_right _ older)).2).2.1
      change file.recordedAt other.id < file.recordedAt left.2.id at newer
      omega
    · exact sound.rising left older right found newer

end Flushed

/-- The file after a flush. -/
abbrev afterFlush (file : TrackedFile) (paths : Option (List JsString)) (now : Option Nat)
    (committedAt : PendingHistoryEntry → Nat) : TrackedFile :=
  { file with
    history := file.history.flushAt paths now committedAt
    clock := (now.map (· + 1)).getD file.clock }

theorem flushed_of_committed (sound : file.Sound hashContent latest) {paths : Option (List JsString)}
    {now : Option Nat} {fresh : List HistoryCommit} {next : FileHistory}
    (committed : (file.history.stamp (file.history.selectPendingEntries paths) now).Committed
      ((file.history.selectPendingEntries paths).map (PendingHistoryEntry.stamp now)) fresh next)
    (later : ∀ time ∈ now, file.clock ≤ time) : Flushed file now fresh where
  steps := committed.steps
  files := committed.files
  entries := fun commit member => by
    obtain ⟨old, inSelected, same⟩ := entry_of_fresh committed member
    exact ⟨old, (FileHistory.mem_selectPendingEntries.mp inSelected).1, same⟩
  later := fun time given entry member =>
    (sound.dated entry member).2.2.le.trans (later time given)

/-- A flush keeps a file sound. -/
theorem flush (sound : file.Sound hashContent latest) (paths : Option (List JsString)) {now : Option Nat}
    (committedAt : PendingHistoryEntry → Nat) (later : ∀ time ∈ now, file.clock ≤ time)
    (bounded : ∀ time ∈ now, time ≤ latest) :
    (afterFlush file paths now committedAt).Sound hashContent latest := by
  obtain ⟨fresh, committed⟩ := committed_flushAt sound.formed paths now committedAt
  have flushed := sound.flushed_of_committed committed later
  have log : (afterFlush file paths now committedAt).history.commits =
      fresh ++ file.history.commits := committed.commits
  constructor
  case toTimed =>
    refine sound.toTimed.flush paths committedAt ?_ fun time given => ⟨?_, flushed.later time given⟩
    · cases now with
      | none => exact Nat.le_refl _
      | some time => exact (later time rfl).trans (Nat.le_succ _)
    · obtain rfl := Option.mem_def.mp given
      exact Nat.lt_succ_self _
  case valid => exact sound.valid
  case shown => exact sound.shown
  case unmoved =>
    exact fun entry member =>
      sound.unmoved entry (mem_pending_flushAt sound.formed committed member).1
  case behind =>
    intro entry member here item found
    obtain ⟨pending, left⟩ := mem_pending_flushAt sound.formed committed member
    have elsewhere : ∀ commit ∈ fresh, commit.entry.path ≠ file.path := by
      intro commit inFresh same
      obtain ⟨old, inSelected, alike⟩ := entry_of_fresh committed inFresh
      refine left (FileHistory.mem_selectPendingEntries.mpr ⟨pending, fun files given => ?_⟩)
      have chosen := (FileHistory.mem_selectPendingEntries.mp inSelected).2 files given
      rw [alike] at same
      change entry.path = file.path at here
      change old.path = file.path at same
      rw [here, ← same]
      exact chosen
    rw [log, foundEntries_elsewhere flushed.steps (flushed.unmoved sound) elsewhere] at found
    exact sound.behind entry pending here item found
  case rising =>
    intro left first right second newer
    rw [log] at first second
    exact flushed.rising sound first second newer
  case bounded =>
    cases now with
    | none => exact sound.bounded
    | some time => exact Nat.succ_le_succ (bounded time rfl)

/-- What is listed after a flush was listed before, with the same window. -/
theorem listed_flush (sound : file.Sound hashContent latest) (paths : Option (List JsString))
    {now : Option Nat} (committedAt : PendingHistoryEntry → Nat)
    (later : ∀ time ∈ now, file.clock ≤ time) {item : ListedEntry}
    (member : item ∈ (file.history.flushAt paths now committedAt).listedEntries file.path) :
    ∃ old ∈ file.history.listedEntries file.path, item.2.id = old.2.id ∧
      item.2.bucketStart = old.2.bucketStart := by
  obtain ⟨fresh, committed⟩ := committed_flushAt sound.formed paths now committedAt
  rcases List.mem_append.mp member with waiting | found
  · obtain ⟨entry, inFile, rfl⟩ := List.mem_map.mp waiting
    obtain ⟨pending, here⟩ := List.mem_filter.mp inFile
    have old := (mem_pending_flushAt sound.formed committed pending).1
    exact ⟨(false, entry), List.mem_append_left _ (List.mem_map_of_mem
      (List.mem_filter.mpr ⟨old, here⟩)), rfl, rfl⟩
  · rw [committed.commits] at found
    exact (sound.flushed_of_committed committed later).listed sound found

theorem above_congr {left right first second : PendingHistoryEntry} (number : left.id = first.id)
    (window : left.bucketStart = first.bucketStart) (other : right.id = second.id)
    (start : right.bucketStart = second.bucketStart) (above : order.Above first second) :
    order.Above left right := by
  unfold HistoryOrder.Above at *
  rw [number, window, other, start]
  exact above

/-- A flush keeps the order of the list. -/
theorem flush_newest (sound : file.Sound hashContent latest) (paths : Option (List JsString))
    {now : Option Nat} (committedAt : PendingHistoryEntry → Nat)
    (later : ∀ time ∈ now, file.clock ≤ time) (bounded : ∀ time ∈ now, time ≤ latest)
    (reads : ∀ time ≤ latest, order.getTime (toISOString time) = time)
    (ordered : file.ListsNewestFirst hashContent order) :
    (afterFlush file paths now committedAt).ListsNewestFirst hashContent order := by
  rw [(sound.flush paths committedAt later bounded).listsNewestFirst_iff reads]
  rw [sound.listsNewestFirst_iff reads] at ordered
  intro left first right second newer
  obtain ⟨old, known, number, window⟩ := sound.listed_flush paths committedAt later first
  obtain ⟨other, listed, alike, start⟩ := sound.listed_flush paths committedAt later second
  rw [number, alike] at newer
  exact above_congr number window alike start (ordered old known other listed newer)

/-- The version of a move. -/
def moveEntry (file : TrackedFile) (input : RecordFileHistoryInput) : PendingHistoryEntry :=
  { file.history.newEntry input with fromPath := some file.path }

/-- The history with the version of a move in memory. -/
def withMove (file : TrackedFile) (input : RecordFileHistoryInput) : FileHistory :=
  { file.history with
    pending := file.history.pending ++ [moveEntry file input]
    nextId := file.history.nextId + 1 }

/-- A move makes a version of its own. -/
theorem recorded_move (sound : file.Sound hashContent latest) (exact : input.coalesceWindowMs = 0)
    (later : file.clock ≤ input.now) :
    (file.history.recordFileHistory input).2 = file.history.newEntry input ∧
      (file.history.recordFileHistory input).1.setFromPath
        (file.history.recordFileHistory input).2.id input.path file.path = withMove file input := by
  have start : bucketStart input.now input.coalesceWindowMs = input.now := if_pos exact
  have none : file.history.pending.find? (fun entry => entry.hasKey input.path
      (bucketStart input.now input.coalesceWindowMs)) = none := by
    refine List.find?_eq_none.mpr fun entry member key => ?_
    have window := (Prod.mk.inj (FileHistory.hasKey_iff.mp key)).2
    have dated := sound.dated entry (List.mem_append_left _ member)
    omega
  have recorded : file.history.recordFileHistory input =
      ({ file.history with
          pending := file.history.pending ++ [file.history.newEntry input]
          nextId := file.history.nextId + 1 }, file.history.newEntry input) := by
    rw [FileHistory.recordFileHistory, none]
  refine ⟨congrArg Prod.snd recorded, ?_⟩
  rw [recorded, FileHistory.setFromPath, withMove, List.map_append, List.map_singleton]
  have kept : file.history.pending.map (fun entry =>
      if (entry.path = input.path && entry.id = (file.history.newEntry input).id) = true then
        { entry with fromPath := some file.path } else entry) = file.history.pending := by
    refine (List.map_congr_left fun entry member => ?_).trans (List.map_id _)
    have below := sound.formed.numbered.2 entry (List.mem_append_left _ member)
    refine if_neg fun same => ?_
    have number : entry.id = file.history.nextId :=
      of_decide_eq_true (Bool.and_eq_true_iff.mp same).2
    omega
  have own : (decide ((file.history.newEntry input).path = input.path) &&
      decide ((file.history.newEntry input).id = (file.history.newEntry input).id)) = true := by
    rw [Bool.and_eq_true, decide_eq_true_eq, decide_eq_true_eq]
    exact ⟨rfl, rfl⟩
  rw [kept, if_pos own, moveEntry]

/-- A move changes no time of an earlier version. -/
theorem recordAt_known (sound : file.Sound hashContent latest) (exact : input.coalesceWindowMs = 0)
    (later : file.clock ≤ input.now) {entry : PendingHistoryEntry}
    (known : entry ∈ file.history.entries) :
    file.recordAt input entry.id = file.recordedAt entry.id := by
  refine Function.update_of_ne (fun same => ?_) _ _
  rw [(sound.recorded_move exact later).1] at same
  have below := sound.formed.numbered.2 entry known
  change entry.id = file.history.nextId at same
  omega

theorem recordAt_move (sound : file.Sound hashContent latest) (exact : input.coalesceWindowMs = 0)
    (later : file.clock ≤ input.now) :
    file.recordAt input (moveEntry file input).id = input.now := by
  have number : (moveEntry file input).id = (file.history.recordFileHistory input).2.id := by
    rw [(sound.recorded_move exact later).1]
    rfl
  rw [number]
  exact Function.update_self _ _ _

theorem mem_entries_withMove {entry : PendingHistoryEntry}
    (member : entry ∈ (withMove file input).entries) :
    entry = moveEntry file input ∨ entry ∈ file.history.entries := by
  rcases List.mem_append.mp member with pending | committed
  · rcases List.mem_append.mp pending with old | new
    · exact .inr (List.mem_append_left _ old)
    · exact .inl (List.mem_singleton.mp new)
  · exact .inr (List.mem_append_right _ committed)

/-- The times of the recordings with the version of a move in memory. -/
theorem timed_withMove (sound : file.Sound hashContent latest) (exact : input.coalesceWindowMs = 0)
    (later : file.clock ≤ input.now) (path : LegiblePath input.path)
    (actor : LegibleActor input.actor) :
    (withMove file input).Timed hashContent (input.now + 1) (file.recordAt input) := by
  have same := fun {entry} known => @recordAt_known _ _ _ input sound exact later entry known
  have own := sound.recordAt_move exact later
  have start : (moveEntry file input).bucketStart = input.now := if_pos exact
  have older : ∀ entry ∈ file.history.entries, file.recordedAt entry.id < input.now := by
    intro entry known
    have dated := sound.dated entry known
    omega
  constructor
  case formed =>
    have formed := FileHistory.formed_setFromPath (FileHistory.formed_record sound.formed input)
      (file.history.recordFileHistory input).2.id input.path file.path
    rwa [(sound.recorded_move exact later).2] at formed
  case files => exact sound.files
  case dated =>
    intro entry member
    rcases mem_entries_withMove member with rfl | known
    · rw [own, start]
      exact ⟨Nat.le_refl _, Nat.le_refl _, Nat.lt_succ_self _⟩
    · rw [same known]
      have dated := sound.dated entry known
      omega
  case recorded =>
    intro entry member
    rcases List.mem_append.mp member with old | new
    · rw [same (List.mem_append_left _ old)]
      exact sound.recorded entry old
    · rw [List.mem_singleton.mp new, own]
      rfl
  case apart =>
    intro left first right second alike
    rcases mem_entries_withMove first with rfl | known
    · rcases mem_entries_withMove second with rfl | known
      · rfl
      · rw [own, same known] at alike
        exact absurd alike.symm (older right known).ne
    · rcases mem_entries_withMove second with rfl | other
      · rw [own, same known] at alike
        exact absurd alike (older left known).ne
      · rw [same known, same other] at alike
        exact sound.apart left known right other alike
  case legible =>
    intro entry member
    rcases mem_entries_withMove member with rfl | known
    · refine (legible_iff hashContent).mpr ⟨path, fun source moved => ?_, fun other credited => ?_⟩
      · obtain rfl := Option.mem_some_iff.mp moved
        exact sound.shown
      · rw [List.mem_singleton.mp credited]
        exact actor
    · exact sound.legible entry known

/-- A move commits its version after those of its target, and leaves nothing of the target in
memory. -/
theorem committed_move (sound : file.Sound hashContent latest) (exact : input.coalesceWindowMs = 0)
    (later : file.clock ≤ input.now) (path : LegiblePath input.path)
    (actor : LegibleActor input.actor) (committedAt : PendingHistoryEntry → Nat) :
    ∃ commit rest,
      (file.history.moveFileHistory file.path input committedAt).commits =
          commit :: (rest ++ file.history.commits) ∧
        commit.listed = (false, moveEntry file input) ∧
        (∀ path, commit.walkStep path = (moveEntry file input).walkStep path) ∧
        Flushed file (some input.now) rest ∧
        ∀ entry ∈ (file.history.moveFileHistory file.path input committedAt).pending,
          entry ∈ file.history.pending ∧ entry.path ≠ input.path := by
  have timed := sound.timed_withMove exact later path actor
  obtain ⟨fresh, committed⟩ := committed_flushAt timed.formed (some [input.path]) (some input.now)
    committedAt
  have history : file.history.moveFileHistory file.path input committedAt =
      (withMove file input).flushAt (some [input.path]) (some input.now) committedAt := by
    rw [FileHistory.moveFileHistory, (sound.recorded_move exact later).2]
  have inside : moveEntry file input ∈
      (withMove file input).selectPendingEntries (some [input.path]) := by
    refine FileHistory.mem_selectPendingEntries.mpr
      ⟨List.mem_append_right _ (List.mem_singleton_self _), fun files given => ?_⟩
    obtain rfl := Option.some.inj given
    exact List.mem_singleton_self _
  have others : ∀ entry ∈ (withMove file input).selectPendingEntries (some [input.path]),
      entry ≠ moveEntry file input → entry ∈ file.history.pending := by
    intro entry selected apart
    rcases List.mem_append.mp (FileHistory.mem_selectPendingEntries.mp selected).1 with old | new
    · exact old
    · exact absurd (List.mem_singleton.mp new) apart
  have nodup : ((withMove file input).selectPendingEntries (some [input.path])).Nodup :=
    List.Nodup.of_map _
      (FileHistory.selectPendingEntries_distinct timed.formed.keyed (some [input.path]))
  -- The version of the move has the greatest time, so it is the last one that is committed.
  obtain ⟨front, split⟩ : ∃ front, (withMove file input).selectPendingEntries (some [input.path]) =
      front ++ [moveEntry file input] := by
    obtain ⟨front, back, split⟩ := List.append_of_mem inside
    refine ⟨front, ?_⟩
    have sorted := selected_sorted (withMove file input) (some [input.path])
    rw [split] at nodup sorted others ⊢
    cases back with
    | nil => rfl
    | cons entry back =>
        have apart : entry ≠ moveEntry file input := by
          rintro rfl
          have twice := (List.nodup_cons.mp (List.nodup_append.mp nodup).2.1).1
          exact twice List.mem_cons_self
        have pending := others entry
          (List.mem_append_right _ (List.mem_cons_of_mem _ List.mem_cons_self)) apart
        have after : (moveEntry file input).updatedAt ≤ entry.updatedAt :=
          (List.pairwise_cons.mp (List.pairwise_append.mp sorted).2.1).1 entry List.mem_cons_self
        have dated := sound.dated entry (List.mem_append_left _ pending)
        change input.now ≤ entry.updatedAt at after
        omega
  have entries := committed.entries
  rw [split, List.map_append, List.map_singleton, List.reverse_append, List.reverse_singleton,
    List.singleton_append] at entries
  obtain ⟨commit, rest, rfl, first, older⟩ := List.map_eq_cons_iff.mp entries
  have own : commit.entry = moveEntry file input := first
  refine ⟨commit, rest, ?_, ?_, ?_, ?_, ?_⟩
  · rw [history, committed.commits]
    rfl
  · rw [HistoryCommit.listed, committed.files commit List.mem_cons_self, own]
  · intro place
    rw [committed.steps commit List.mem_cons_self, own]
  · constructor
    case steps => exact fun other member => committed.steps other (List.mem_cons_of_mem _ member)
    case files => exact fun other member => committed.files other (List.mem_cons_of_mem _ member)
    case entries =>
      intro other member
      have listed : other.entry ∈ (front.map (PendingHistoryEntry.stamp (some input.now))).reverse :=
        older ▸ List.mem_map_of_mem member
      obtain ⟨old, inFront, same⟩ := List.mem_map.mp (List.mem_reverse.mp listed)
      rw [split] at others nodup
      refine ⟨old, others old (List.mem_append_left _ inFront) ?_, same.symm⟩
      exact (List.nodup_append.mp nodup).2.2 old inFront _ (List.mem_singleton_self _)
    case later =>
      intro time given entry member
      obtain rfl := Option.some.inj given
      exact (sound.dated entry member).2.2.le.trans later
  · intro entry member
    rw [history] at member
    obtain ⟨pending, left⟩ := mem_pending_flushAt timed.formed committed member
    have elsewhere : entry.path ≠ input.path := by
      intro here
      refine left (FileHistory.mem_selectPendingEntries.mpr ⟨pending, fun files given => ?_⟩)
      obtain rfl := Option.some.inj given
      exact here ▸ List.mem_singleton_self _
    rcases List.mem_append.mp pending with old | new
    · exact ⟨old, elsewhere⟩
    · rw [List.mem_singleton.mp new] at elsewhere
      exact absurd rfl elsewhere

/-- The file after a move. -/
abbrev afterMove (file : TrackedFile) (input : RecordFileHistoryInput)
    (committedAt : PendingHistoryEntry → Nat) : TrackedFile :=
  ⟨file.history.moveFileHistory file.path input committedAt, input.path, input.now + 1,
    file.recordAt input⟩

/-- What is listed after a move is its version and what the log shows of the file, with what was in
memory. -/
theorem listed_move (sound : file.Sound hashContent latest) (exact : input.coalesceWindowMs = 0)
    (operation : input.operation = .move ∨ input.operation = .rename)
    (later : file.clock ≤ input.now) (path : LegiblePath input.path)
    (actor : LegibleActor input.actor) (committedAt : PendingHistoryEntry → Nat) :
    ∃ rest, Flushed file (some input.now) rest ∧
      foundEntries input.path (afterMove file input committedAt).history.commits =
        (false, moveEntry file input) ::
          foundEntries file.path (rest ++ file.history.commits) ∧
      (afterMove file input committedAt).history.listedEntries input.path =
        (false, moveEntry file input) ::
          foundEntries file.path (rest ++ file.history.commits) := by
  obtain ⟨commit, rest, commits, own, steps, flushed, pending⟩ :=
    sound.committed_move exact later path actor committedAt
  have found : foundEntries input.path (afterMove file input committedAt).history.commits =
      (false, moveEntry file input) :: foundEntries file.path (rest ++ file.history.commits) := by
    change foundEntries input.path (file.history.moveFileHistory file.path input committedAt).commits =
      _
    rw [commits, foundEntries_cons, steps]
    have moved : (moveEntry file input).walkStep input.path = .followed file.path :=
      walkStep_moved rfl sound.valid operation
    rw [moved, own]
  refine ⟨rest, flushed, found, ?_⟩
  have none : (afterMove file input committedAt).history.pending.filter
      (fun entry => entry.path = input.path) = [] := by
    refine List.filter_eq_nil_iff.mpr fun entry member => ?_
    rw [decide_eq_true_eq]
    exact (pending entry member).2
  rw [FileHistory.listedEntries, none, found]
  rfl

/-- What the log shows of a file after a flush was recorded before a later time, and has no later
one. -/
theorem recorded_older (sound : file.Sound hashContent latest) (later : file.clock ≤ input.now)
    {rest : List HistoryCommit} (flushed : Flushed file (some input.now) rest) {item : ListedEntry}
    (member : item ∈ foundEntries file.path (rest ++ file.history.commits)) :
    file.recordedAt item.2.id < input.now ∧ item.2.updatedAt ≤ input.now := by
  rcases flushed.origin sound member with ⟨old, pending, _, rfl⟩ | found
  · have dated := sound.dated old (List.mem_append_left _ pending)
    refine ⟨?_, Nat.le_refl _⟩
    change file.recordedAt old.id < input.now
    omega
  · have dated := sound.dated item.2 (sound.listed (List.mem_append_right _ found)).2
    omega

theorem recordAt_older (sound : file.Sound hashContent latest) (exact : input.coalesceWindowMs = 0)
    (later : file.clock ≤ input.now) {rest : List HistoryCommit}
    (flushed : Flushed file (some input.now) rest) {item : ListedEntry}
    (member : item ∈ foundEntries file.path (rest ++ file.history.commits)) :
    file.recordAt input item.2.id = file.recordedAt item.2.id := by
  obtain ⟨old, known, number, _⟩ := flushed.listed sound member
  rw [number]
  exact sound.recordAt_known exact later (sound.listed known).2

/-- A move keeps a file sound. -/
theorem move (sound : file.Sound hashContent latest) (exact : input.coalesceWindowMs = 0)
    (operation : input.operation = .move ∨ input.operation = .rename)
    (valid : validateVaultPath input.path .file = true) (later : file.clock ≤ input.now)
    (bounded : input.now ≤ latest) (path : LegiblePath input.path)
    (actor : LegibleActor input.actor) (committedAt : PendingHistoryEntry → Nat) :
    (afterMove file input committedAt).Sound hashContent latest := by
  obtain ⟨rest, flushed, found, _⟩ :=
    sound.listed_move exact operation later path actor committedAt
  obtain ⟨_, _, _, _, _, _, pending⟩ := sound.committed_move exact later path actor committedAt
  have timed := sound.timed_withMove exact later path actor
  have history : file.history.moveFileHistory file.path input committedAt =
      (withMove file input).flushAt (some [input.path]) (some input.now) committedAt := by
    rw [FileHistory.moveFileHistory, (sound.recorded_move exact later).2]
  have after : (afterMove file input committedAt).history.Timed hashContent (input.now + 1)
      (file.recordAt input) := by
    change (file.history.moveFileHistory file.path input committedAt).Timed _ _ _
    rw [history]
    refine timed.flush _ committedAt (Nat.le_refl _) fun time given => ?_
    obtain rfl := Option.some.inj given
    exact ⟨Nat.lt_succ_self _, fun entry member =>
      Nat.le_of_lt_succ (timed.dated entry member).2.2⟩
  constructor
  case toTimed => exact after
  case valid => exact valid
  case shown => exact path
  case unmoved => exact fun entry member => sound.unmoved entry (pending entry member).1
  case behind => exact fun entry member here => absurd here (pending entry member).2
  case rising =>
    have older : ∀ {item : ListedEntry}, item ∈ foundEntries file.path (_ ++ file.history.commits) →
        file.recordAt input item.2.id = file.recordedAt item.2.id :=
      fun member => sound.recordAt_older exact later flushed member
    have below : ∀ {item : ListedEntry}, item ∈ foundEntries file.path (_ ++ file.history.commits) →
        item.2.updatedAt ≤ input.now :=
      fun member => (sound.recorded_older later flushed member).2
    intro left first right second newer
    change left ∈ foundEntries input.path (afterMove file input committedAt).history.commits at first
    change right ∈ foundEntries input.path (afterMove file input committedAt).history.commits
      at second
    change file.recordAt input _ < file.recordAt input _ at newer
    rw [found] at first second
    rcases List.mem_cons.mp first with rfl | inLog
    · rcases List.mem_cons.mp second with rfl | other
      · exact Nat.le_refl _
      · exact below other
    · rcases List.mem_cons.mp second with rfl | other
      · rw [sound.recordAt_move exact later, older inLog] at newer
        have before := (sound.recorded_older later flushed inLog).1
        omega
      · rw [older inLog, older other] at newer
        exact flushed.rising sound inLog other newer
  case bounded => exact Nat.succ_le_succ bounded

/-- A move keeps the order of the list. -/
theorem move_newest (sound : file.Sound hashContent latest) (exact : input.coalesceWindowMs = 0)
    (operation : input.operation = .move ∨ input.operation = .rename)
    (valid : validateVaultPath input.path .file = true) (later : file.clock ≤ input.now)
    (bounded : input.now ≤ latest) (path : LegiblePath input.path)
    (actor : LegibleActor input.actor) (committedAt : PendingHistoryEntry → Nat)
    (reads : ∀ time ≤ latest, order.getTime (toISOString time) = time)
    (ordered : file.ListsNewestFirst hashContent order) :
    (afterMove file input committedAt).ListsNewestFirst hashContent order := by
  obtain ⟨rest, flushed, _, listed⟩ :=
    sound.listed_move exact operation later path actor committedAt
  have next := sound.move exact operation valid later bounded path actor committedAt
  rw [next.listsNewestFirst_iff reads]
  rw [sound.listsNewestFirst_iff reads] at ordered
  have older : ∀ {item : ListedEntry}, item ∈ foundEntries file.path (_ ++ file.history.commits) →
      file.recordAt input item.2.id = file.recordedAt item.2.id :=
    fun member => sound.recordAt_older exact later flushed member
  intro left first right second newer
  change left ∈ (afterMove file input committedAt).history.listedEntries input.path at first
  change right ∈ (afterMove file input committedAt).history.listedEntries input.path at second
  change file.recordAt input _ < file.recordAt input _ at newer
  rw [listed] at first second
  rcases List.mem_cons.mp first with rfl | inLog
  · rcases List.mem_cons.mp second with rfl | other
    · exact absurd newer (Nat.lt_irrefl _)
    · obtain ⟨old, known, _, window⟩ := flushed.listed sound other
      have dated := sound.dated old.2 (sound.listed known).2
      have start : (moveEntry file input).bucketStart = input.now := if_pos exact
      refine .inl ?_
      rw [start, window]
      omega
  · rcases List.mem_cons.mp second with rfl | other
    · rw [sound.recordAt_move exact later, older inLog] at newer
      have before := (sound.recorded_older later flushed inLog).1
      omega
    · rw [older inLog, older other] at newer
      obtain ⟨old, known, number, window⟩ := flushed.listed sound inLog
      obtain ⟨past, listed, alike, start⟩ := flushed.listed sound other
      rw [number, alike] at newer
      exact above_congr number window alike start (ordered old known past listed newer)

end TrackedFile.Sound

section Runs

variable {hashContent order} {latest : Nat} {file next : TrackedFile} {call : HistoryCall}

/-- The start of a window and the number of its version decide what is above a recording. -/
theorem recordsOnTop_iff {operation : FileHistoryOperation} {actor : VaultActor}
    {content : JsString} {now coalesceWindowMs : Nat} :
    RecordsOnTop order file (.record operation actor content now coalesceWindowMs) ↔
      ∀ item ∈ file.history.listedEntries file.path,
        let recorded := (file.history.recordFileHistory
          (file.recordInput operation actor content now coalesceWindowMs)).2
        item.2.id ≠ recorded.id → order.Above recorded item.2 := by
  obtain ⟨_, window, _, number⟩ := recorded_fields file.history
    (file.recordInput operation actor content now coalesceWindowMs)
  dsimp only
  unfold RecordsOnTop HistoryOrder.Above
  rw [number, window]
  exact Iff.rfl

theorem moveOperationForPaths_cases (fromPath toPath : JsString) :
    moveOperationForPaths fromPath toPath = .move ∨
      moveOperationForPaths fromPath toPath = .rename := by
  unfold moveOperationForPaths
  split
  · exact .inr rfl
  · exact .inl rfl

/-- Every call keeps a file sound. -/
theorem TrackedFile.Sound.step (sound : file.Sound hashContent latest)
    (legible : call.Legible latest) (stepped : trackedFileMachine.step file call = some next) :
    next.Sound hashContent latest := by
  cases call with
  | record operation actor content now coalesceWindowMs =>
      obtain ⟨later, same⟩ := Option.ite_none_right_eq_some.mp stepped
      obtain rfl := Option.some.inj same
      exact sound.record rfl later legible.2 legible.1
  | flush paths now committedAt =>
      obtain ⟨later, same⟩ := Option.ite_none_right_eq_some.mp stepped
      obtain rfl := Option.some.inj same
      exact sound.flush paths committedAt later legible
  | move toPath actor content now committedAt =>
      obtain ⟨⟨valid, later⟩, same⟩ := Option.ite_none_right_eq_some.mp stepped
      obtain rfl := Option.some.inj same
      obtain ⟨path, credited, bounded⟩ := legible
      exact sound.move rfl (moveOperationForPaths_cases _ _) valid later bounded path credited
        committedAt

/-- A call keeps the order of the list exactly if what it records belongs above the other
versions. -/
theorem TrackedFile.Sound.step_newest_iff (sound : file.Sound hashContent latest)
    (reads : ∀ time ≤ latest, order.getTime (toISOString time) = time)
    (legible : call.Legible latest) (stepped : trackedFileMachine.step file call = some next)
    (ordered : file.ListsNewestFirst hashContent order) :
    next.ListsNewestFirst hashContent order ↔ RecordsOnTop order file call := by
  cases call with
  | record operation actor content now coalesceWindowMs =>
      obtain ⟨later, same⟩ := Option.ite_none_right_eq_some.mp stepped
      obtain rfl := Option.some.inj same
      rw [recordsOnTop_iff]
      exact sound.record_newest_iff rfl later legible.2 legible.1 reads ordered
  | flush paths now committedAt =>
      obtain ⟨later, same⟩ := Option.ite_none_right_eq_some.mp stepped
      obtain rfl := Option.some.inj same
      exact iff_of_true (sound.flush_newest paths committedAt later legible reads ordered) trivial
  | move toPath actor content now committedAt =>
      obtain ⟨⟨valid, later⟩, same⟩ := Option.ite_none_right_eq_some.mp stepped
      obtain rfl := Option.some.inj same
      obtain ⟨path, credited, bounded⟩ := legible
      exact iff_of_true (sound.move_newest rfl (moveOperationForPaths_cases _ _) valid later bounded
        path credited committedAt reads ordered) trivial

/-- A file without history is sound. -/
theorem TrackedFile.sound_new {path : JsString} (valid : validateVaultPath path .file = true)
    (shown : LegiblePath path) : (TrackedFile.new path).Sound hashContent latest where
  formed := HistoryQueue.formed_new
  files := nofun
  dated := nofun
  recorded := nofun
  apart := nofun
  legible := nofun
  valid := valid
  shown := shown
  unmoved := nofun
  behind := nofun
  rising := nofun
  bounded := Nat.zero_le _

theorem TrackedFile.listsNewestFirst_new (path : JsString) :
    (TrackedFile.new path).ListsNewestFirst hashContent order :=
  .nil

/-- From a file whose list is in order it stays so exactly along runs whose recordings belong above
the other versions. -/
theorem TrackedFile.Sound.newestFirst_iff {calls : List HistoryCall} {target : TrackedFile}
    (sound : file.Sound hashContent latest)
    (reads : ∀ time ≤ latest, order.getTime (toISOString time) = time)
    (legible : ∀ call ∈ calls, call.Legible latest)
    (run : trackedFileMachine.Run (fun _ _ => True) file calls target)
    (ordered : file.ListsNewestFirst hashContent order) :
    (∀ before after middle, calls = before ++ after →
        trackedFileMachine.Run (fun _ _ => True) file before middle →
          middle.ListsNewestFirst hashContent order) ↔
      trackedFileMachine.Run (RecordsOnTop order) file calls target := by
  induction run with
  | nil file =>
      refine iff_of_true (fun before after middle split reached => ?_) (.nil file)
      obtain ⟨rfl, rfl⟩ := List.append_eq_nil_iff.mp split.symm
      cases reached
      exact ordered
  | cons _ stepped rest ih =>
      have first := legible _ List.mem_cons_self
      have kept := sound.step first stepped
      have newest_iff := sound.step_newest_iff reads first stepped ordered
      have onward := ih kept fun call member => legible call (List.mem_cons_of_mem _ member)
      constructor
      · intro always
        have next := always [_] _ _ rfl (.cons trivial stepped (.nil _))
        refine .cons (newest_iff.mp next) stepped ((onward next).mp ?_)
        intro before after middle split reached
        exact always (_ :: before) after middle (congrArg _ split) (.cons trivial stepped reached)
      · intro guarded before after middle split reached
        cases guarded with
        | cons top step guarded =>
            obtain rfl := Option.some.inj (stepped.symm.trans step)
            have next := newest_iff.mpr top
            cases reached with
            | nil => exact ordered
            | cons _ again reached =>
                obtain ⟨rfl, same⟩ := List.cons.inj split
                obtain rfl := Option.some.inj (step.symm.trans again)
                exact (onward next).mpr guarded _ after middle same reached

/-- What holds at the end of a run. -/
theorem TrackedFile.Sound.run {calls : List HistoryCall} {target : TrackedFile}
    (sound : file.Sound hashContent latest) (legible : ∀ call ∈ calls, call.Legible latest)
    (run : trackedFileMachine.Run (fun _ _ => True) file calls target) :
    target.Sound hashContent latest := by
  induction run with
  | nil => exact sound
  | cons _ stepped _ ih =>
      exact ih (sound.step (legible _ List.mem_cons_self) stepped)
        fun call member => legible call (List.mem_cons_of_mem _ member)

end Runs

/-- **Order of the versions.** The versions of a file are listed in the order of their last
recordings after every call of a run exactly if every recording of the run belongs above all other
versions that are listed. -/
theorem versions_newest_first_iff {hashContent : JsString → Token} {order : HistoryOrder}
    {latest : Nat} (reads : ∀ time ≤ latest, order.getTime (toISOString time) = time)
    {path : JsString} (valid : validateVaultPath path .file = true) (shown : LegiblePath path)
    {calls : List HistoryCall} (legible : ∀ call ∈ calls, call.Legible latest)
    {target : TrackedFile}
    (run : trackedFileMachine.Run (fun _ _ => True) (.new path) calls target) :
    (∀ before after middle, calls = before ++ after →
        trackedFileMachine.Run (fun _ _ => True) (.new path) before middle →
          middle.ListsNewestFirst hashContent order) ↔
      trackedFileMachine.Run (RecordsOnTop order) (.new path) calls target :=
  (TrackedFile.sound_new valid shown).newestFirst_iff reads legible run
    (TrackedFile.listsNewestFirst_new path)

/-- The platform on times of years of four digits, and on texts whose units are in order. -/
def utcOrder : HistoryOrder where
  getTime text := (IsoTime.datetime text).getD 0
  localeLe left right := decide (left ≤ right)
  total left right := by
    rw [decide_eq_true_eq, decide_eq_true_eq]
    exact List.le_total left right
  trans := by
    intro first second third before after
    rw [decide_eq_true_eq] at before after ⊢
    exact List.le_trans before after
  antisymm := by
    intro left right before after
    rw [decide_eq_true_eq] at before after
    exact Subtype.ext (List.le_antisymm before after)

/-- Times before the year 10000 are read back from their texts. -/
theorem utcOrder_reads {latest : Nat} (early : latest < 253402300800000) :
    ∀ time ≤ latest, utcOrder.getTime (toISOString time) = time := by
  intro time within
  have read := datetime_toISOString (Nat.lt_of_le_of_lt within early)
  unfold utcOrder
  dsimp only
  rw [read, Option.getD_some]

instance (path : JsString) : Decidable (LegiblePath path) :=
  inferInstanceAs (Decidable (_ ∧ _))

instance (actor : VaultActor) : Decidable (LegibleActor actor) :=
  inferInstanceAs (Decidable (_ ∧ _ ∧ _))

instance (latest : Nat) : (call : HistoryCall) → Decidable (call.Legible latest)
  | .record _ _ _ _ _ => inferInstanceAs (Decidable (_ ∧ _))
  | .flush _ now _ => inferInstanceAs (Decidable (∀ time ∈ now, time ≤ latest))
  | .move _ _ _ _ _ => inferInstanceAs (Decidable (_ ∧ _ ∧ _))

instance (order : HistoryOrder) (file : TrackedFile) :
    (call : HistoryCall) → Decidable (RecordsOnTop order file call)
  | .record _ _ _ now coalesceWindowMs =>
      inferInstanceAs (Decidable (∀ item ∈ file.history.listedEntries file.path,
        item.2.id ≠ file.history.recordId file.path (bucketStart now coalesceWindowMs) →
          item.2.bucketStart < bucketStart now coalesceWindowMs ∨
            item.2.bucketStart = bucketStart now coalesceWindowMs ∧
              order.localeLe (pendingId item.2.id).1
                (pendingId (file.history.recordId file.path
                  (bucketStart now coalesceWindowMs))).1 = true))
  | .flush _ _ _ => .isTrue trivial
  | .move _ _ _ _ _ => .isTrue trivial

/-- A note is created and committed, moved, and edited in a window that begins after the move. -/
def orderedCalls : List HistoryCall :=
  [.record .create someUser (units "one") 5 10, .flush none none fun _ => 6,
    .move (units "b.md") someUser (units "one") 20 fun _ => 21,
    .record .update someUser (units "two") 35 10]

/-- A note is created, moved, and edited in the window of its creation. -/
def misorderedCalls : List HistoryCall :=
  [.record .create someUser (units "one") 10 1000,
    .move (units "b.md") someUser (units "one") 20 fun _ => 21,
    .record .update someUser (units "two") 30 1000]

theorem orderedCalls_legible : ∀ call ∈ orderedCalls, call.Legible 40 := by
  decide +kernel

theorem misorderedCalls_legible : ∀ call ∈ misorderedCalls, call.Legible 40 := by
  decide +kernel

/-- Edits in windows of their own are listed in their order. -/
theorem versions_newest_first_iff_windows :
    ∃ target, trackedFileMachine.Run (fun _ _ => True) (.new (units "a.md")) orderedCalls target ∧
      ∀ hashContent, target.ListsNewestFirst hashContent utcOrder := by
  obtain ⟨target, guarded, _⟩ : ∃ target, trackedFileMachine.Run (RecordsOnTop utcOrder)
      (.new (units "a.md")) orderedCalls target ∧ target.path = units "b.md" :=
    Machine.evaluate_view (by decide +kernel)
  have run := guarded.mono fun _ _ _ => trivial
  refine ⟨target, run, fun hashContent => ?_⟩
  exact (versions_newest_first_iff (utcOrder_reads (by decide)) (by decide +kernel)
    (by decide +kernel) orderedCalls_legible run).mpr guarded orderedCalls [] target (List.append_nil _).symm run

/-- An edit in a window that began before a move is listed behind the move. -/
theorem versions_misordered :
    (∀ call ∈ misorderedCalls, call.Legible 40) ∧
      ∃ target, trackedFileMachine.Run (fun _ _ => True) (.new (units "a.md")) misorderedCalls
          target ∧ ∀ hashContent, ¬ target.ListsNewestFirst hashContent utcOrder := by
  refine ⟨misorderedCalls_legible, ?_⟩
  obtain ⟨target, run, seen⟩ : ∃ target, trackedFileMachine.Run (fun _ _ => True)
      (.new (units "a.md")) misorderedCalls target ∧
        (target.history.listedEntries target.path).map (fun item =>
            (item.2.id, item.2.bucketStart, target.recordedAt item.2.id)) =
          [(2, 0, 30), (1, 20, 20)] := Machine.evaluate_view (by decide +kernel)
  refine ⟨target, run, fun hashContent ordered => ?_⟩
  have start : (TrackedFile.new (units "a.md")).Sound hashContent 40 :=
    TrackedFile.sound_new (by decide +kernel) (by decide +kernel)
  have ranked := ((start.run misorderedCalls_legible run).listsNewestFirst_iff
    (utcOrder_reads (by decide))).mp ordered
  obtain ⟨edit, rest, listed, first, others⟩ := List.map_eq_cons_iff.mp seen
  obtain ⟨move, _, rfl, second, _⟩ := List.map_eq_cons_iff.mp others
  obtain ⟨editStart, editTime⟩ := Prod.mk.inj (Prod.mk.inj first).2
  obtain ⟨moveStart, moveTime⟩ := Prod.mk.inj (Prod.mk.inj second).2
  have above := ranked edit (listed ▸ List.mem_cons_self) move
    (listed ▸ List.mem_cons_of_mem _ List.mem_cons_self) (by omega)
  rcases above with later | ⟨same, _⟩
  · omega
  · omega

end Kb1Daemon
