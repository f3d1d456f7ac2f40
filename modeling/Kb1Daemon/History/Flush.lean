import Kb1Daemon.History.Walk
import Kb1Daemon.History.Formed

/-! # What a flush shows

A flush moves versions from the memory to commits. The list of a path's versions takes
them from the memory before and from the walk after, so they are the same versions exactly
if the walk meets the flushed versions of the path and no others, and finds the older
commits that it found before (`flush_invisible_iff`).
-/

namespace Kb1Daemon

open JsString

/-- A version in a list, without whether and where it is committed. -/
def FileHistoryEntry.plain (entry : FileHistoryEntry) : FileHistoryEntry :=
  { entry with pending := false, commitId := none }

/-- An entry, in memory or of a commit, with whether it moved a folder. -/
abbrev ListedEntry := Bool × PendingHistoryEntry

/-- The entry of a commit. -/
def HistoryCommit.listed (commit : HistoryCommit) : ListedEntry := (commit.folder, commit.entry)

variable (hashContent : JsString → Token)

/-- The version of an entry in the list of a path, without whether and where it is
committed. -/
def plainVersion (rel : JsString) (item : ListedEntry) : FileHistoryEntry :=
  ((⟨0, 0, item.2, item.1, []⟩ : HistoryCommit).version hashContent rel).plain

/-- The entries of the commits that the walk along a path finds. -/
def foundEntries (path : JsString) (commits : List HistoryCommit) : List ListedEntry :=
  (chain path commits).map fun found => found.1.listed

/-- What the commit of an entry is to the walk that follows a path. -/
def PendingHistoryEntry.walkStep (entry : PendingHistoryEntry) (currentPath : JsString) :
    WalkStep :=
  (⟨0, 0, entry, false, entry.path :: entry.fromPath.toList⟩ : HistoryCommit).walkStep currentPath

/-- No commit is one of the file at a path. -/
def untold (path : JsString) (commits : List HistoryCommit) : Bool :=
  commits.all fun commit => commit.walkStep path = .passed

/-- Two paths lead through the same commits. -/
def sameWalk : JsString → JsString → List HistoryCommit → Bool
  | _, _, [] => true
  | left, right, commit :: older =>
      match commit.walkStep left, commit.walkStep right with
      | .passed, .passed => sameWalk left right older
      | .ended, .ended => true
      | .ended, .followed path => untold path older
      | .followed path, .ended => untold path older
      | .followed left, .followed right => sameWalk left right older
      | _, _ => false

/-- Committed after some commits, entries, newest first, leave the list of a path as it is.
The walk meets every one of them that is of the path, and none of another path; it ends
only at the last one, and only if no older commit is one of the path; and where it leaves
them, it has the same commits before it as the path itself. -/
def quiet (rel : JsString) (commits : List HistoryCommit) :
    JsString → List PendingHistoryEntry → Bool
  | currentPath, [] => sameWalk currentPath rel commits
  | currentPath, entry :: older =>
      match entry.walkStep currentPath with
      | .passed => entry.path ≠ rel && quiet rel commits currentPath older
      | .ended => entry.path = rel && older.all (fun other => other.path ≠ rel) &&
          untold rel commits
      | .followed path => entry.path = rel && quiet rel commits path older

namespace FileHistory

/-- The entries that the list of a path shows. -/
def listedEntries (history : FileHistory) (rel : JsString) : List ListedEntry :=
  (history.pending.filter fun entry => entry.path = rel).map (Prod.mk false) ++
    foundEntries rel history.commits

/-- Two histories have the same versions of a path, whether or not they are committed. -/
def SameVersions (history next : FileHistory) (order : HistoryOrder) (rel : JsString) : Prop :=
  (next.newestFirst hashContent order rel).map FileHistoryEntry.plain =
    (history.newestFirst hashContent order rel).map FileHistoryEntry.plain

/-- A page without whether and where its versions are committed. -/
def plainPage (page : Option (List FileHistoryEntry × Bool)) :
    Option (List FileHistoryEntry × Bool) :=
  page.map fun page => (page.1.map FileHistoryEntry.plain, page.2)

/-- Two histories list a path alike: the list of versions is the same, and so is every page
of it. -/
structure ListsAlike (history next : FileHistory) (order : HistoryOrder) (rel : JsString) :
    Prop where
  versions : history.SameVersions hashContent next order rel
  pages : ∀ before beforeId limit,
    plainPage (next.listFileHistory hashContent order rel before beforeId limit) =
      plainPage (history.listFileHistory hashContent order rel before beforeId limit)

end FileHistory

variable {hashContent}

/-- An entry in memory is shown as its commit will be. -/
theorem plain_pending {entry : PendingHistoryEntry} (formed : entry.Formed) :
    (pendingEntryToHistoryEntry hashContent entry).plain =
      plainVersion hashContent entry.path (false, entry) := by
  have some : entry.contributors.isEmpty = false := by
    cases empty : entry.contributors with
    | nil => exact absurd empty formed.credited
    | cons _ _ => rfl
  unfold plainVersion HistoryCommit.version pendingEntryToHistoryEntry FileHistoryEntry.plain
  dsimp only
  rw [some, formed.dated]
  rfl

/-- A list of versions depends on the entries alone. -/
theorem newestFirst_plain {history : FileHistory} (formed : history.Formed)
    (legible : ∀ commit ∈ history.commits, commit.Legible hashContent) (order : HistoryOrder)
    (rel : JsString) :
    (history.newestFirst hashContent order rel).map FileHistoryEntry.plain =
      ((history.listedEntries rel).map (plainVersion hashContent rel)).insertionSort
        fun left right => order.before left right = true := by
  unfold FileHistory.newestFirst
  rw [List.map_insertionSort (fun left right => order.before left right = true)
    (fun left right => order.before left right = true) FileHistoryEntry.plain _
    fun _ _ _ _ => Iff.rfl]
  congr 1
  rw [FileHistory.readCommittedHistory_eq legible formed.distinct]
  unfold FileHistory.listedEntries foundEntries FileHistory.pendingEntriesForPath
  rw [List.map_append, List.map_append, List.map_map, List.map_map, List.map_map, List.map_map,
    List.map_map]
  congr 1
  apply List.map_congr_left
  intro entry member
  obtain ⟨listed, here⟩ := List.mem_filter.mp member
  obtain rfl := of_decide_eq_true here
  exact plain_pending (formed.formed entry (List.mem_append_left _ listed))

/-- The id of a version is a token that tells its entry's number, and whether it moved a
folder. -/
theorem id_plainVersion (rel : JsString) (item : ListedEntry) :
    (plainVersion hashContent rel item).id =
      (if item.1 then folderMoveId item.2.id else pendingId item.2.id).1 := by
  unfold plainVersion HistoryCommit.version HistoryCommit.commitEntry FileHistoryEntry.plain
  dsimp only
  split <;> rfl

theorem number_of_id {rel : JsString} {left right : ListedEntry}
    (same : (plainVersion hashContent rel left).id = (plainVersion hashContent rel right).id) :
    left.2.id = right.2.id := by
  have apart : ∀ first second : Nat, (folderMoveId first).1 ≠ (pendingId second).1 := by
    intro first second equal
    have heads := congrArg List.head? equal
    change some (102 : CodeUnit) = some 112 at heads
    revert heads
    decide
  rw [id_plainVersion, id_plainVersion] at same
  by_cases one : left.1 = true <;> by_cases other : right.1 = true
  · rw [if_pos one, if_pos other] at same
    exact decimal_injective (List.append_cancel_left same)
  · rw [if_pos one, if_neg other] at same
    exact absurd same (apart _ _)
  · rw [if_neg one, if_pos other] at same
    exact absurd same.symm (apart _ _)
  · rw [if_neg one, if_neg other] at same
    exact decimal_injective (List.append_cancel_left same)

/-- The order of versions does not tell apart what has one time and one id. -/
theorem HistoryOrder.id_of_before {order : HistoryOrder} {rel : JsString} {left right : ListedEntry}
    (forth : order.before (plainVersion hashContent rel left)
      (plainVersion hashContent rel right) = true)
    (back : order.before (plainVersion hashContent rel right)
      (plainVersion hashContent rel left) = true) :
    (plainVersion hashContent rel left).id = (plainVersion hashContent rel right).id := by
  unfold HistoryOrder.before at forth back
  rw [Bool.or_eq_true, Bool.and_eq_true, decide_eq_true_iff, decide_eq_true_iff] at forth back
  have ids : order.localeLe (plainVersion hashContent rel right).id
        (plainVersion hashContent rel left).id = true ∧
      order.localeLe (plainVersion hashContent rel left).id
        (plainVersion hashContent rel right).id = true := by
    rcases forth with later | ⟨_, forth⟩
    · rcases back with earlier | ⟨same, _⟩
      · omega
      · omega
    · rcases back with earlier | ⟨_, back⟩
      · omega
      · exact ⟨forth, back⟩
  rw [id_plainVersion, id_plainVersion] at ids ⊢
  exact congrArg Subtype.val (order.antisymm ids.2 ids.1)

instance (order : HistoryOrder) :
    Std.Total fun left right => order.before left right = true where
  total := by
    intro left right
    unfold HistoryOrder.before
    simp only [Bool.or_eq_true, Bool.and_eq_true, decide_eq_true_iff]
    rcases lt_trichotomy (order.getTime left.createdAt) (order.getTime right.createdAt) with
      earlier | same | later
    · exact .inr (.inl earlier)
    · rcases order.total left.id right.id with forth | back
      · exact .inr (.inr ⟨same, forth⟩)
      · exact .inl (.inr ⟨same.symm, back⟩)
    · exact .inl (.inl later)

instance (order : HistoryOrder) :
    IsTrans FileHistoryEntry fun left right => order.before left right = true where
  trans := by
    intro first second third
    unfold HistoryOrder.before
    simp only [Bool.or_eq_true, Bool.and_eq_true, decide_eq_true_iff]
    rintro (later | ⟨same, ids⟩) (further | ⟨equal, others⟩)
    · exact .inl (further.trans later)
    · exact .inl (equal ▸ later)
    · exact .inl (same ▸ further)
    · exact .inr ⟨equal.trans same, order.trans others ids⟩

/-- Sorted, versions with different ids are the same list exactly if they are the same
versions. -/
theorem sorted_eq_iff (order : HistoryOrder) (rel : JsString) {pool left right : List ListedEntry}
    (distinct : (pool.map fun item => item.2.id).Nodup) (inLeft : left ⊆ pool)
    (inRight : right ⊆ pool) (nodupLeft : left.Nodup) (nodupRight : right.Nodup) :
    ((right.map (plainVersion hashContent rel)).insertionSort fun left right =>
        order.before left right = true) =
      ((left.map (plainVersion hashContent rel)).insertionSort fun left right =>
        order.before left right = true) ↔ right.Perm left := by
  have injective : ∀ item ∈ pool, ∀ other ∈ pool,
      (plainVersion hashContent rel item).id = (plainVersion hashContent rel other).id →
        item = other :=
    fun item member other present same =>
      List.inj_on_of_nodup_map distinct member present (number_of_id same)
  constructor
  · intro same
    have perm := (List.perm_insertionSort _ _).symm.trans
      ((List.Perm.of_eq same).trans (List.perm_insertionSort _ _))
    have moved : ∀ {these those : List ListedEntry}, these ⊆ pool → those ⊆ pool →
        (these.map (plainVersion hashContent rel)).Perm
          (those.map (plainVersion hashContent rel)) → these ⊆ those := by
      intro these those inThese inThose alike item member
      obtain ⟨other, present, equal⟩ :=
        List.mem_map.mp (alike.mem_iff.mp (List.mem_map_of_mem member))
      rw [injective item (inThese member) other (inThose present)
        (congrArg FileHistoryEntry.id equal.symm)]
      exact present
    exact (List.perm_ext_iff_of_nodup nodupRight nodupLeft).mpr fun item =>
      ⟨fun member => moved inRight inLeft perm member,
        fun member => moved inLeft inRight perm.symm member⟩
  · intro perm
    refine List.Perm.eq_of_pairwise ?_ (List.pairwise_insertionSort _ _)
      (List.pairwise_insertionSort _ _) ((List.perm_insertionSort _ _).trans
        ((perm.map _).trans (List.perm_insertionSort _ _).symm))
    intro version other member present forth back
    obtain ⟨item, listed, rfl⟩ := List.mem_map.mp ((List.mem_insertionSort _).mp member)
    obtain ⟨second, inList, rfl⟩ := List.mem_map.mp ((List.mem_insertionSort _).mp present)
    rw [injective item (inRight listed) second (inLeft inList)
      (HistoryOrder.id_of_before forth back)]

section FoundEntries

theorem foundEntries_cons (path : JsString) (commit : HistoryCommit)
    (older : List HistoryCommit) :
    foundEntries path (commit :: older) =
      match commit.walkStep path with
      | .passed => foundEntries path older
      | .ended => [commit.listed]
      | .followed next => commit.listed :: foundEntries next older := by
  unfold foundEntries
  rw [chain]
  cases commit.walkStep path <;> rfl

theorem foundEntries_sublist (path : JsString) (commits : List HistoryCommit) :
    (foundEntries path commits).Sublist (commits.map HistoryCommit.listed) := by
  induction commits generalizing path with
  | nil => exact List.Sublist.refl _
  | cons commit older ih =>
      rw [foundEntries_cons, List.map_cons]
      cases commit.walkStep path with
      | passed => exact (ih path).cons _
      | ended => exact (List.nil_sublist _).cons_cons _
      | followed next => exact (ih next).cons_cons _

theorem foundEntries_eq_nil {path : JsString} {commits : List HistoryCommit} :
    foundEntries path commits = [] ↔ untold path commits = true := by
  unfold untold
  induction commits with
  | nil => exact ⟨fun _ => rfl, fun _ => rfl⟩
  | cons commit older ih =>
      rw [foundEntries_cons, List.all_cons]
      cases commit.walkStep path with
      | passed => simpa using ih
      | ended => simp
      | followed next => simp

variable {commits : List HistoryCommit}

theorem sameWalk_iff (distinct : (commits.map HistoryCommit.listed).Nodup)
    (left right : JsString) :
    (foundEntries left commits).Perm (foundEntries right commits) ↔
      sameWalk left right commits = true := by
  induction commits generalizing left right with
  | nil => exact ⟨fun _ => rfl, fun _ => List.Perm.refl _⟩
  | cons commit older ih =>
      have rest := @ih (List.nodup_cons.mp distinct).2
      have new : ∀ path, commit.listed ∉ foundEntries path older := fun path member =>
        (List.nodup_cons.mp distinct).1 ((foundEntries_sublist path older).subset member)
      have apart : ∀ (path : JsString) (others : List ListedEntry),
          ¬ (commit.listed :: others).Perm (foundEntries path older) :=
        fun path others perm => new path (perm.mem_iff.mp List.mem_cons_self)
      rw [foundEntries_cons, foundEntries_cons, sameWalk]
      cases commit.walkStep left with
      | passed =>
          cases commit.walkStep right with
          | passed => exact rest left right
          | ended => exact iff_of_false (fun perm => apart _ _ perm.symm) nofun
          | followed next => exact iff_of_false (fun perm => apart _ _ perm.symm) nofun
      | ended =>
          cases commit.walkStep right with
          | passed => exact iff_of_false (apart _ _) nofun
          | ended => exact iff_of_true (List.Perm.refl _) rfl
          | followed next =>
              dsimp only
              rw [List.perm_cons, List.nil_perm, foundEntries_eq_nil]
      | followed path =>
          cases commit.walkStep right with
          | passed => exact iff_of_false (apart _ _) nofun
          | ended =>
              dsimp only
              rw [List.perm_cons, List.perm_nil, foundEntries_eq_nil]
          | followed next =>
              dsimp only
              rw [List.perm_cons]
              exact rest path next

/-- The walk over new commits and older ones finds the new ones of a path, and the older
ones that the walk from the path finds, exactly if the new ones are quiet. -/
theorem quiet_iff {rel : JsString} {fresh : List HistoryCommit}
    (plain : ∀ commit ∈ fresh, ∀ path, commit.walkStep path = commit.entry.walkStep path)
    (distinct : ((fresh ++ commits).map HistoryCommit.listed).Nodup) (currentPath : JsString) :
    (foundEntries currentPath (fresh ++ commits)).Perm
        ((fresh.filter fun commit => commit.entry.path = rel).map HistoryCommit.listed ++
          foundEntries rel commits) ↔
      quiet rel commits currentPath (fresh.map HistoryCommit.entry) = true := by
  induction fresh generalizing currentPath with
  | nil => exact sameWalk_iff distinct currentPath rel
  | cons commit older ih =>
      obtain ⟨absent, others⟩ := List.nodup_cons.mp distinct
      have rest := @ih (fun other member => plain other (List.mem_cons_of_mem _ member)) others
      have known : (older.filter fun commit => commit.entry.path = rel).map HistoryCommit.listed ++
          foundEntries rel commits ⊆ (older ++ commits).map HistoryCommit.listed := by
        rw [List.map_append]
        exact List.append_subset.mpr
          ⟨List.Subset.trans (List.filter_sublist.map _).subset (List.subset_append_left _ _),
            List.Subset.trans (foundEntries_sublist rel commits).subset
              (List.subset_append_right _ _)⟩
      have step := plain commit List.mem_cons_self currentPath
      rw [List.cons_append, foundEntries_cons, List.map_cons, quiet, ← step]
      by_cases here : commit.entry.path = rel
      · rw [List.filter_cons_of_pos (by simpa using here), List.map_cons, List.cons_append]
        cases commit.walkStep currentPath with
        | passed =>
            refine iff_of_false (fun perm => ?_) (by simp [here])
            exact absent ((foundEntries_sublist currentPath (older ++ commits)).subset
              (perm.mem_iff.mpr List.mem_cons_self))
        | ended =>
            dsimp only
            rw [List.perm_cons, List.nil_perm, List.append_eq_nil_iff, foundEntries_eq_nil]
            simp [here]
        | followed path =>
            dsimp only
            rw [List.perm_cons, rest path]
            simp [here]
      · rw [List.filter_cons_of_neg (by simpa using here)]
        have apart : ∀ found : List ListedEntry, ¬ (commit.listed :: found).Perm
            ((older.filter fun commit => commit.entry.path = rel).map HistoryCommit.listed ++
              foundEntries rel commits) :=
          fun found perm => absent (known (perm.mem_iff.mp List.mem_cons_self))
        cases commit.walkStep currentPath with
        | passed =>
            dsimp only
            rw [rest currentPath]
            simp [here]
        | ended => exact iff_of_false (apart _) (by simp [here])
        | followed path => exact iff_of_false (apart _) (by simp [here])

end FoundEntries

namespace FileHistory

/-- What commits of entries add to a history, and what they take from its memory. -/
structure Committed (history : FileHistory) (selected : List PendingHistoryEntry)
    (fresh : List HistoryCommit) (next : FileHistory) : Prop where
  commits : next.commits = fresh ++ history.commits
  entries : fresh.map HistoryCommit.entry = selected.reverse
  files : ∀ commit ∈ fresh, commit.folder = false
  steps : ∀ commit ∈ fresh, ∀ path, commit.walkStep path = commit.entry.walkStep path
  pending : history.pending.Perm (selected ++ next.pending)
  formed : next.Formed

theorem committed_commitAll {selected : List (PendingHistoryEntry × Nat)} {history : FileHistory}
    (formed : history.Formed)
    (listed : ∀ entry ∈ selected.map Prod.fst, entry ∈ history.pending)
    (distinct : ((selected.map Prod.fst).map fun entry =>
      (entry.path, entry.bucketStart)).Nodup) :
    ∃ fresh, history.Committed (selected.map Prod.fst) fresh (history.commitAll selected) := by
  induction selected generalizing history with
  | nil => exact ⟨[], rfl, rfl, nofun, nofun, List.Perm.refl _, formed⟩
  | cons first rest ih =>
      have member := listed first.1 List.mem_cons_self
      have after := formed_commit formed member first.2
      obtain ⟨fresh, later⟩ := ih after
        (mem_commit_of_distinct first.2 distinct
          fun entry inRest => listed entry (List.mem_cons_of_mem _ inRest))
        (List.nodup_cons.mp distinct).2
      have split := List.filter_append_perm
        (fun other : PendingHistoryEntry => other.hasKey first.1.path first.1.bucketStart)
        history.pending
      rw [filter_hasKey formed.keyed member, List.singleton_append] at split
      refine ⟨fresh ++ [history.newCommit first.1 first.2], ?_, ?_, ?_, ?_, ?_, later.formed⟩
      · rw [List.append_assoc]
        exact later.commits
      · rw [List.map_append, later.entries]
        exact List.reverse_cons.symm
      · intro commit inFresh
        rcases List.mem_append.mp inFresh with new | last
        · exact later.files commit new
        · rw [List.mem_singleton.mp last]
          rfl
      · intro commit inFresh path
        rcases List.mem_append.mp inFresh with new | last
        · exact later.steps commit new path
        · rw [List.mem_singleton.mp last]
          rfl
      · exact split.symm.trans (later.pending.cons first.1)

/-- A flush whose commands succeed commits what it selects. -/
theorem committed_flush {history : FileHistory} (formed : history.Formed)
    {paths : Option (List JsString)} {times : List Nat}
    (succeeds : (history.selectPendingEntries paths).length ≤ times.length) :
    ∃ fresh, history.Committed (history.selectPendingEntries paths) fresh
      (history.flushFileHistory paths times) := by
  have selected : ((history.selectPendingEntries paths).zip times).map Prod.fst =
      history.selectPendingEntries paths := List.map_fst_zip succeeds
  have committed := @committed_commitAll ((history.selectPendingEntries paths).zip times) history
    formed
  rw [selected] at committed
  exact committed (fun entry member => (mem_selectPendingEntries.mp member).1)
    (selectPendingEntries_distinct formed.keyed paths)

/-- All entries of a history, with whether they moved a folder. -/
def pool (history : FileHistory) : List ListedEntry :=
  history.pending.map (Prod.mk false) ++ history.commits.map HistoryCommit.listed

theorem pool_entries (history : FileHistory) : history.pool.map Prod.snd = history.entries := by
  unfold pool entries
  rw [List.map_append, List.map_map, List.map_map]
  congr 1
  exact List.map_id _

theorem pool_distinct {history : FileHistory} (formed : history.Formed) :
    (history.pool.map fun item => item.2.id).Nodup := by
  have ids := formed.numbered.1
  rw [← pool_entries, List.map_map] at ids
  exact ids

theorem listedEntries_sublist (history : FileHistory) (rel : JsString) :
    (history.listedEntries rel).Sublist history.pool :=
  (List.filter_sublist.map _).append (foundEntries_sublist rel history.commits)

variable {history next : FileHistory} {selected : List PendingHistoryEntry}
  {fresh : List HistoryCommit}

theorem listed_fresh (committed : history.Committed selected fresh next) :
    fresh.map HistoryCommit.listed = selected.reverse.map (Prod.mk false) := by
  rw [← committed.entries, List.map_map]
  apply List.map_congr_left
  intro commit member
  unfold HistoryCommit.listed
  rw [committed.files commit member]
  rfl

/-- Commits of entries in memory lead to no new entries. -/
theorem Committed.pool (committed : history.Committed selected fresh next) :
    next.pool.Perm history.pool := by
  unfold FileHistory.pool
  rw [committed.commits, List.map_append, listed_fresh committed, ← List.append_assoc]
  refine List.Perm.append_right _ ?_
  rw [← List.map_append]
  refine List.Perm.map _ (List.Perm.trans ?_ committed.pending.symm)
  exact (List.perm_append_comm).trans ((List.reverse_perm selected).append_right _)

/-- The entries that the list of a path showed before: those left in memory, the flushed
ones and those found in the older commits. -/
theorem Committed.listedEntries (committed : history.Committed selected fresh next)
    (rel : JsString) :
    (history.listedEntries rel).Perm
      ((next.pending.filter fun entry => entry.path = rel).map (Prod.mk false) ++
        ((fresh.filter fun commit => commit.entry.path = rel).map HistoryCommit.listed ++
          foundEntries rel history.commits)) := by
  have flushed : (fresh.filter fun commit => commit.entry.path = rel).map HistoryCommit.listed =
      (selected.reverse.filter fun entry => entry.path = rel).map (Prod.mk false) := by
    rw [← committed.entries, List.filter_map, List.map_map]
    apply List.map_congr_left
    intro commit member
    unfold HistoryCommit.listed
    rw [committed.files commit (List.mem_filter.mp member).1]
    rfl
  unfold FileHistory.listedEntries
  rw [flushed, ← List.append_assoc, ← List.map_append, ← List.filter_append]
  refine ((List.Perm.filter _ ?_).map _).append_right _
  exact committed.pending.trans ((List.perm_append_comm).trans
    ((List.reverse_perm selected).symm.append_left _))

/-- **Commits show what was in memory** exactly if they are quiet. -/
theorem sameVersions_iff (formed : history.Formed)
    (committed : history.Committed selected fresh next)
    (legible : ∀ commit ∈ next.commits, commit.Legible hashContent) (order : HistoryOrder)
    (rel : JsString) :
    history.SameVersions hashContent next order rel ↔
      quiet rel history.commits rel selected.reverse = true := by
  have before : ∀ commit ∈ history.commits, commit.Legible hashContent := by
    intro commit member
    refine legible commit ?_
    rw [committed.commits]
    exact List.mem_append_right _ member
  have distinct := pool_distinct formed
  have nodup : history.pool.Nodup := List.Nodup.of_map _ distinct
  have other := committed.pool
  have sublist := listedEntries_sublist next rel
  have freshDistinct : ((fresh ++ history.commits).map HistoryCommit.listed).Nodup := by
    rw [← committed.commits]
    exact (other.nodup_iff.mpr nodup).sublist (List.sublist_append_right _ _)
  unfold SameVersions
  rw [newestFirst_plain committed.formed legible, newestFirst_plain formed before,
    sorted_eq_iff order rel distinct (listedEntries_sublist history rel).subset
      (List.Subset.trans sublist.subset other.subset)
      (nodup.sublist (listedEntries_sublist history rel))
      ((other.nodup_iff.mpr nodup).sublist sublist),
    ← committed.entries, ← quiet_iff committed.steps freshDistinct rel]
  have shown := committed.listedEntries rel
  unfold listedEntries at shown ⊢
  rw [committed.commits, shown.congr_right, List.perm_append_left_iff]

/-- The pages of a list depend on its versions alone. -/
theorem SameVersions.pages {order : HistoryOrder} {rel : JsString}
    (same : history.SameVersions hashContent next order rel) (before : Option Int)
    (beforeId : Option JsString) (limit : Option Int) :
    plainPage (next.listFileHistory hashContent order rel before beforeId limit) =
      plainPage (history.listFileHistory hashContent order rel before beforeId limit) := by
  have cursor : ∀ entries : List FileHistoryEntry,
      (applyHistoryCursor order entries before beforeId).map FileHistoryEntry.plain =
        applyHistoryCursor order (entries.map FileHistoryEntry.plain) before beforeId := by
    intro entries
    unfold applyHistoryCursor
    cases before with
    | none => rfl
    | some before =>
        dsimp only
        rw [List.filter_map]
        rfl
  have page : ∀ past : FileHistory,
      plainPage (past.listFileHistory hashContent order rel before beforeId limit) =
        if validateVaultPath rel .file then
          some (((applyHistoryCursor order ((past.newestFirst hashContent order rel).map
              FileHistoryEntry.plain) before beforeId).take (normalizePageLimit limit)),
            decide (((applyHistoryCursor order ((past.newestFirst hashContent order rel).map
              FileHistoryEntry.plain) before beforeId).take (normalizePageLimit limit)).length <
                (applyHistoryCursor order ((past.newestFirst hashContent order rel).map
                  FileHistoryEntry.plain) before beforeId).length))
        else none := by
    intro past
    unfold plainPage listFileHistory
    dsimp only
    split
    · rw [← cursor, ← List.map_take, List.length_map, List.length_map]
      rfl
    · rfl
  rw [page, page, same]

theorem length_newestFirst (formed : history.Formed)
    (legible : ∀ commit ∈ history.commits, commit.Legible hashContent) (order : HistoryOrder)
    (rel : JsString) :
    (history.newestFirst hashContent order rel).length = (history.listedEntries rel).length := by
  have lengths := congrArg List.length (newestFirst_plain formed legible order rel)
  rw [List.length_map, List.length_insertionSort, List.length_map] at lengths
  exact lengths

end FileHistory

/-- **What a flush shows.** In every run, a flush whose commands succeed leaves the list of a
path as it is exactly if the entries that it commits are quiet. -/
theorem flush_invisible_iff {historyCoalesceWindowMs : Nat} {labels : List HistoryLabel}
    {queue : HistoryQueue}
    (run : (historyMachine historyCoalesceWindowMs).Run (fun _ _ => True) .new labels queue)
    (legible : ∀ entry ∈ queue.history.entries, (entry.commitEntry hashContent).Legible)
    {paths : Option (List JsString)} {times : List Nat}
    (succeeds : (queue.history.selectPendingEntries paths).length ≤ times.length)
    (order : HistoryOrder) (rel : JsString) :
    queue.history.ListsAlike hashContent (queue.history.flushFileHistory paths times) order rel ↔
      quiet rel queue.history.commits rel
        (queue.history.selectPendingEntries paths).reverse = true := by
  have formed := HistoryQueue.formed_run run
  obtain ⟨fresh, committed⟩ := FileHistory.committed_flush formed succeeds
  have after : ∀ commit ∈ (queue.history.flushFileHistory paths times).commits,
      commit.Legible hashContent := by
    intro commit member
    refine HistoryCommit.legible_of_entry hashContent (legible _ ?_)
    have inPool : commit.listed ∈ queue.history.pool :=
      committed.pool.subset (List.mem_append_right _ (List.mem_map_of_mem member))
    rw [← FileHistory.pool_entries]
    exact List.mem_map_of_mem inPool
  have versions := FileHistory.sameVersions_iff formed committed after order rel
  constructor
  · intro alike
    exact versions.mp alike.versions
  · intro still
    exact ⟨versions.mpr still, (versions.mpr still).pages⟩

/-- A user without a name. -/
def someUser : VaultActor := ⟨.user, none, none, none⟩

/-- An entry of a note by a user without a name. -/
def noteEntry (id : Nat) (operation : FileHistoryOperation) (start updatedAt : Nat)
    (content : JsString) : PendingHistoryEntry :=
  ⟨id, units "a.md", none, operation, start, start, updatedAt, content, [someUser]⟩

theorem legible_noteEntry (id : Nat) (operation : FileHistoryOperation) (start updatedAt : Nat)
    (content : JsString) :
    ((noteEntry id operation start updatedAt content).commitEntry hashContent).Legible where
  path := by
    change commitSeparator ∉ commitPathDisplay (units "a.md") ∧
      hasLineSeparator (units "a.md") = false
    decide +kernel
  fromPath := nofun
  contributors := by
    change ∀ actor ∈ [someUser], _
    decide +kernel
  labels := by
    change ∀ actor ∈ [someUser], _
    decide +kernel

/-- A log of notes is legible. -/
theorem legible_notes {history : FileHistory}
    (notes : ∀ commit ∈ history.commits, ∃ id operation start updatedAt content,
      commit.entry = noteEntry id operation start updatedAt content) :
    ∀ commit ∈ history.commits, commit.Legible hashContent := by
  intro commit member
  obtain ⟨id, operation, start, updatedAt, content, same⟩ := notes commit member
  apply HistoryCommit.legible_of_entry
  rw [same]
  exact legible_noteEntry id operation start updatedAt content

/-- A note is created and committed; it is deleted, which the history does not see, and
created again. -/
def recreating : List HistoryLabel :=
  [.enqueueHistoryMutation (.recordHistory (units "a.md") .create someUser (units "one") none),
    .begin 5, .hashed, .enqueueHistoryMutation (.flushHistory none), .begin 6, .committed 7,
    .enqueueHistoryMutation (.recordHistory (units "a.md") .create someUser (units "two") none),
    .begin 5000, .hashed]

def recreated : FileHistory where
  pending := [noteEntry 1 .create 5000 5000 (units "two")]
  commits := [⟨0, 7, noteEntry 0 .create 0 5 (units "one"), false, [units "a.md"]⟩]
  nextId := 2

/-- Committing the second creation of a note hides the first one. -/
theorem flush_hides_version :
    ∃ queue, (historyMachine 1000).Run (fun _ _ => True) .new recreating queue ∧
      ∀ (hashContent : JsString → Token) (order : HistoryOrder),
        ((queue.history.listFileHistory hashContent order (units "a.md") none none none).map
            fun page => page.1.length) = some 2 ∧
          (((queue.history.flushFileHistory none [6000]).listFileHistory hashContent order
            (units "a.md") none none none).map fun page => page.1.length) = some 1 := by
  obtain ⟨queue, run, seen⟩ : ∃ queue, (historyMachine 1000).Run (fun _ _ => True) .new
      recreating queue ∧ queue.history = recreated := Machine.evaluate_view (by decide +kernel)
  refine ⟨queue, run, fun hashContent order => ?_⟩
  have formed := HistoryQueue.formed_run run
  rw [seen] at formed ⊢
  have next : recreated.flushFileHistory none [6000] =
      recreated.commitPendingEntry (noteEntry 1 .create 5000 5000 (units "two")) 6000 := by
    decide +kernel
  have length : ∀ {history : FileHistory}, history.Formed →
      (∀ commit ∈ history.commits, ∃ id operation start updatedAt content,
        commit.entry = noteEntry id operation start updatedAt content) →
      (history.listFileHistory hashContent order (units "a.md") none none none).map
          (fun page => page.1.length) =
        some (min 50 (history.listedEntries (units "a.md")).length) := by
    intro history formed notes
    unfold FileHistory.listFileHistory
    rw [if_pos (by decide +kernel), Option.map_some, List.length_take]
    dsimp only [applyHistoryCursor]
    rw [FileHistory.length_newestFirst formed (legible_notes notes)]
    rfl
  have committed : ∀ commit ∈ recreated.commits, ∃ id operation start updatedAt content,
      commit.entry = noteEntry id operation start updatedAt content := by
    intro commit member
    rw [List.mem_singleton.mp member]
    exact ⟨_, _, _, _, _, rfl⟩
  constructor
  · rw [length formed committed]
    decide +kernel
  · rw [next, length (FileHistory.formed_commit formed List.mem_cons_self 6000)]
    · decide +kernel
    · intro commit member
      rcases List.mem_cons.mp member with rfl | old
      · exact ⟨_, _, _, _, _, rfl⟩
      · exact committed commit old

/-- A note is created, and edited in a later window. -/
def editing : List HistoryLabel :=
  [.enqueueHistoryMutation (.recordHistory (units "a.md") .create someUser (units "one") none),
    .begin 5, .hashed,
    .enqueueHistoryMutation (.recordHistory (units "a.md") .update someUser (units "two") none),
    .begin 5000, .hashed]

def edited : FileHistory where
  pending := [noteEntry 0 .create 0 5 (units "one"), noteEntry 1 .update 5000 5000 (units "two")]
  commits := []
  nextId := 2

theorem flush_invisible_edit :
    ∃ queue, (historyMachine 1000).Run (fun _ _ => True) .new editing queue ∧
      ∀ (hashContent : JsString → Token) (order : HistoryOrder),
        queue.history.ListsAlike hashContent (queue.history.flushFileHistory none [6000, 6001])
          order (units "a.md") := by
  obtain ⟨queue, run, seen⟩ : ∃ queue, (historyMachine 1000).Run (fun _ _ => True) .new
      editing queue ∧ queue.history = edited := Machine.evaluate_view (by decide +kernel)
  refine ⟨queue, run, fun hashContent order => (flush_invisible_iff run ?_ ?_ order _).mpr ?_⟩
  · rw [seen]
    intro entry member
    rcases List.mem_cons.mp member with rfl | later
    · exact legible_noteEntry _ _ _ _ _
    · rw [List.mem_singleton.mp later]
      exact legible_noteEntry _ _ _ _ _
  · rw [seen]
    decide +kernel
  · rw [seen]
    decide +kernel

end Kb1Daemon
