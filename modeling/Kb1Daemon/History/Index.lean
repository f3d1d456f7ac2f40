import Kb1Daemon.History.Queue

/-! # The index of the repository

A commit takes all that stands in the index of the repository. An entry is staged before it is
committed, and what a failed commit has staged stays in the index, so that the next commit of
another entry takes it as well (`version_swept`). As long as the index holds nothing but the
version that is committed, the last content recorded for a file's version in a window is in memory
or in exactly one commit (`versions_kept_once`).
-/

namespace Kb1Daemon

/-- A version whose content is in the index. -/
structure StagedVersion where
  id : Nat
  path : JsString
  content : JsString
  deriving DecidableEq, Repr

/-- The version that staging an entry puts into the index. -/
def PendingHistoryEntry.staged (entry : PendingHistoryEntry) : StagedVersion :=
  ⟨entry.id, entry.path, entry.content⟩

/-- How far the staging of a commit gets: not to the index, or to the removal of the place that is
moved away from, or to the end. -/
inductive Staging where
  | untouched
  | removed
  | complete
  deriving DecidableEq, Repr

/-- `stagePendingEntry`: the versions in the index, of which a path has one. -/
def stagePendingEntry (staging : Staging) (entry : PendingHistoryEntry)
    (staged : List StagedVersion) : List StagedVersion :=
  let left := staged.filter fun version => entry.fromPath ≠ some version.path
  match staging with
  | .untouched => staged
  | .removed => left
  | .complete => entry.staged :: left.filter fun version => version.path ≠ entry.path

/-- The staging of a moved folder: `git add` puts the changed files of the new folder into the
index, whose contents may be those of versions in memory. -/
def stageFolder (staging : Staging) (fromPath toPath : JsString)
    (added : List (JsString × JsString)) (pending : List PendingHistoryEntry)
    (staged : List StagedVersion) : List StagedVersion :=
  let left := staged.filter fun version => (relativeDescendantPath fromPath version.path).isNone
  match staging with
  | .untouched => staged
  | .removed => left
  | .complete =>
      (pending.filter fun entry => (entry.path, entry.content) ∈ added).map
          PendingHistoryEntry.staged ++
        left.filter fun version => (relativeDescendantPath toPath version.path).isNone

/-- The history with the versions in the index and, newest first, those that each commit takes. -/
structure HistoryIndex where
  queue : HistoryQueue
  staged : List StagedVersion
  carried : List (List StagedVersion)
  deriving DecidableEq, Repr

/-- A step of the history, with how far the staging gets if it fails, and the files that `git add`
finds changed in a moved folder. -/
structure IndexLabel where
  event : HistoryLabel
  staging : Staging
  added : List (JsString × JsString)
  deriving DecidableEq, Repr

namespace HistoryIndex

/-- A vault without history and with an index like its last commit. -/
def new : HistoryIndex := ⟨.new, [], []⟩

/-- The versions in the index once the running work has staged what it commits. -/
def restaged (index : HistoryIndex) (staging : Staging) (added : List (JsString × JsString)) :
    List StagedVersion :=
  match index.queue.running with
  | some (.committing (entry :: _)) => stagePendingEntry staging entry index.staged
  | some (.movingFolder fromPath toPath _) =>
      stageFolder staging fromPath toPath added index.queue.history.pending index.staged
  | _ => index.staged

/-- Put another queue, and commit what is in the index or leave it there. -/
def follow (index : HistoryIndex) (label : IndexLabel) (next : HistoryQueue) : HistoryIndex :=
  match label.event with
  | .committed _ | .committedFolder _ _ =>
      ⟨next, [], index.restaged .complete label.added :: index.carried⟩
  | .failed => ⟨next, index.restaged label.staging label.added, index.carried⟩
  | _ => ⟨next, index.staged, index.carried⟩

/-- The versions of their own that the running work commits. -/
def own (index : HistoryIndex) : List StagedVersion :=
  match index.queue.running with
  | some (.committing (entry :: _)) => [entry.staged]
  | _ => []

/-- A commit is made that takes another version than its own. -/
def Sweeps (index : HistoryIndex) (label : IndexLabel) : Prop :=
  match label.event with
  | .committed _ | .committedFolder _ _ =>
      ∃ version ∈ index.restaged .complete label.added, version ∉ index.own
  | _ => False

instance decidableSweeps (index : HistoryIndex) (label : IndexLabel) :
    Decidable (index.Sweeps label) := by
  unfold Sweeps
  split <;> infer_instance

/-- The number of the commits that take a version. -/
def commitsWith (index : HistoryIndex) (version : StagedVersion) : Nat :=
  index.carried.countP fun versions => version ∈ versions

/-- **Each version once.** The last content recorded for a file's version in a window after so many
commits is in memory and in no commit, or it is out of memory and in exactly one commit. -/
def KeptOnce (index : HistoryIndex) : Prop :=
  ∀ path start epoch content, index.queue.lastContent path start epoch = some content →
    (epoch = (index.queue.history.commitsOf path start).length ∧
      ∃ entry ∈ index.queue.history.pending, (entry.path, entry.bucketStart) = (path, start) ∧
        entry.content = content ∧ index.commitsWith entry.staged = 0) ∨
    ∃ entry, (index.queue.history.commitsOf path start)[epoch]? = some entry ∧
      entry.content = content ∧
      entry.id ∉ index.queue.history.pending.map PendingHistoryEntry.id ∧
      index.commitsWith entry.staged = 1

end HistoryIndex

/-- The machine of the history and the index. -/
def indexMachine (historyCoalesceWindowMs : Nat) : Machine HistoryIndex IndexLabel where
  step index label :=
    ((historyMachine historyCoalesceWindowMs).step index.queue label.event).map
      (index.follow label)

namespace HistoryIndex

variable {historyCoalesceWindowMs : Nat} {index next : HistoryIndex} {label : IndexLabel}

/-- The versions that a commit takes by itself. -/
def committedVersions (commit : HistoryCommit) : List StagedVersion :=
  if commit.folder then [] else [commit.entry.staged]

/-- Every commit takes its own version and no other. -/
structure Clean (index : HistoryIndex) : Prop where
  sound : index.queue.Sound
  carried : index.carried = index.queue.history.commits.map committedVersions

/-- Only a commit adds to the commits. -/
theorem commits_step {queue after : HistoryQueue} {event : HistoryLabel}
    (quiet : (event matches .committed _ | .committedFolder _ _) = false)
    (stepped : (historyMachine historyCoalesceWindowMs).step queue event = some after) :
    after.history.commits = queue.history.commits := by
  cases event with
  | enqueueHistoryMutation work =>
      cases stepped
      rfl
  | begin now =>
      simp only [historyMachine] at stepped
      split at stepped
      · cases stepped
        exact congrArg FileHistory.commits (HistoryQueue.start_same _ _ _ _).1
      · cases stepped
  | read content now =>
      simp only [historyMachine] at stepped
      split at stepped
      · cases stepped
        rfl
      · split at stepped <;> cases stepped <;> rfl
      · cases stepped
  | hashed =>
      simp only [historyMachine] at stepped
      split at stepped
      · rename_i input fromPath running
        cases stepped
        cases fromPath <;> exact FileHistory.commits_record queue.history input
      · cases stepped
  | committed committedAt => cases quiet
  | committedFolder committedAt touched => cases quiet
  | failed =>
      simp only [historyMachine] at stepped
      split at stepped <;> cases stepped <;> rfl

/-- An entry that is committed without sweeping anything is all that the commit takes. -/
theorem stagePendingEntry_eq {entry : PendingHistoryEntry} {staged : List StagedVersion}
    (alone : ∀ version ∈ stagePendingEntry .complete entry staged, version ∈ [entry.staged]) :
    stagePendingEntry .complete entry staged = [entry.staged] := by
  refine congrArg (entry.staged :: ·) (List.eq_nil_iff_forall_not_mem.mpr fun version left => ?_)
  have other := of_decide_eq_true (List.mem_filter.mp left).2
  have same := List.mem_singleton.mp (alone version (List.mem_cons_of_mem _ left))
  exact other (congrArg StagedVersion.path same)

theorem clean_step (clean : index.Clean) (calm : ¬index.Sweeps label)
    (stepped : (indexMachine historyCoalesceWindowMs).step index label = some next) :
    next.Clean := by
  obtain ⟨queue, moved, rfl⟩ := Option.map_eq_some_iff.mp stepped
  obtain ⟨sound, safe⟩ := HistoryQueue.sound_step clean.sound moved
  have carried := clean.carried
  obtain ⟨event, staging, added⟩ := label
  cases event with
  | committed committedAt =>
      refine ⟨sound, ?_⟩
      simp only [historyMachine] at moved
      split at moved
      · rename_i entry rest running
        obtain rfl := Option.some.inj moved
        have alone : ∀ version ∈ stagePendingEntry .complete entry index.staged,
            version ∈ [entry.staged] := by
          intro version listed
          by_contra other
          refine calm ⟨version, ?_, ?_⟩
          · rw [restaged, running]
            exact listed
          · rw [own, running]
            exact other
        dsimp only [follow]
        rw [restaged, running]
        dsimp only
        rw [stagePendingEntry_eq alone, carried]
        rfl
      · cases moved
  | committedFolder committedAt touched =>
      refine ⟨sound, ?_⟩
      simp only [historyMachine] at moved
      split at moved
      · rename_i fromPath toPath actor running
        obtain rfl := Option.some.inj moved
        have empty : index.restaged .complete added = [] := by
          refine List.eq_nil_iff_forall_not_mem.mpr fun version listed => calm ⟨version, listed, ?_⟩
          rw [own, running]
          exact List.not_mem_nil
        dsimp only [follow]
        rw [empty, carried]
        rfl
      · cases moved
  | failed =>
      refine ⟨sound, carried.trans ?_⟩
      exact congrArg (List.map committedVersions ·.commits) (safe.failed rfl).symm
  | _ => exact ⟨sound, carried.trans (congrArg _ (commits_step rfl moved).symm)⟩

theorem clean_new : new.Clean := ⟨HistoryQueue.sound_new, rfl⟩

/-- The number of the commits that take a version. -/
theorem Clean.commitsWith (clean : index.Clean) (version : StagedVersion) :
    index.commitsWith version = index.queue.history.commits.countP fun commit =>
      version ∈ committedVersions commit := by
  rw [HistoryIndex.commitsWith, clean.carried, List.countP_map]
  rfl

theorem mem_committedVersions {commit : HistoryCommit} {version : StagedVersion} :
    version ∈ committedVersions commit ↔ commit.folder = false ∧ version = commit.entry.staged := by
  rw [committedVersions]
  cases commit.folder with
  | true => simp
  | false => simp

/-- **Every last content once.** -/
theorem Clean.keptOnce (clean : index.Clean) : index.KeptOnce := by
  have ids := clean.sound.numbered.1
  rw [FileHistory.entries, List.map_append, List.nodup_append] at ids
  obtain ⟨-, distinct, apart⟩ := ids
  intro path start epoch content last
  rcases clean.sound.kept path start epoch content last with
    ⟨now, entry, member, key, text⟩ | ⟨entry, committed, text⟩
  · refine .inl ⟨now, entry, member, key, text, ?_⟩
    rw [clean.commitsWith, List.countP_eq_zero]
    intro commit made taken
    obtain ⟨-, same⟩ := mem_committedVersions.mp (of_decide_eq_true taken)
    exact apart _ (List.mem_map_of_mem member) _ (List.mem_map_of_mem (List.mem_map_of_mem made))
      (congrArg StagedVersion.id same)
  · have listed := List.mem_of_getElem? committed
    rw [FileHistory.commitsOf, List.mem_reverse, List.mem_filter, List.mem_map] at listed
    obtain ⟨⟨commit, made, rfl⟩, -⟩ := listed
    obtain ⟨made, folder⟩ := List.mem_filter.mp made
    refine .inr ⟨_, committed, text, fun again => ?_, ?_⟩
    · exact apart _ again _ (List.mem_map_of_mem (List.mem_map_of_mem made)) rfl
    · rw [clean.commitsWith]
      refine Nat.le_antisymm ?_ (List.countP_pos_iff.mpr ⟨commit, made, decide_eq_true ?_⟩)
      · have once := List.nodup_iff_count_le_one.mp distinct commit.entry.id
        refine Nat.le_trans ?_ once
        rw [List.map_map, List.count_eq_countP, List.countP_map]
        refine List.countP_mono_left fun other _ taken => ?_
        obtain ⟨-, same⟩ := mem_committedVersions.mp (of_decide_eq_true taken)
        exact beq_iff_eq.mpr (congrArg StagedVersion.id same).symm
      · exact mem_committedVersions.mpr ⟨by simpa using folder, rfl⟩

end HistoryIndex

/-- A label that tells nothing of the index. -/
def IndexLabel.of (event : HistoryLabel) : IndexLabel := ⟨event, .untouched, []⟩

end Kb1Daemon
