import Kb1Daemon.History.Listing

/-! # The walk through the log

The walk reads messages. As long as they can be read back, it is a walk over the commits
themselves (`FileHistory.readCommittedHistory_eq`), which has no need of the ids seen so
far.
-/

namespace Kb1Daemon

open JsString

variable (hashContent : JsString → Token)

/-- How the walk goes on at a commit. -/
inductive WalkStep where
  /-- The commit is none of the file. -/
  | passed
  /-- The walk finds the commit and ends. -/
  | ended
  /-- The walk finds the commit and follows a path from there. -/
  | followed (path : JsString)
  deriving DecidableEq, Repr

namespace HistoryCommit

/-- What the message tells of the place a commit's version comes from. -/
def recordedFromPath (commit : HistoryCommit) : CommitPath :=
  match commit.entry.fromPath with
  | none => .undefined
  | some fromPath => .text fromPath

/-- The scope that a commit's message tells. -/
def scope (commit : HistoryCommit) (currentPath : JsString) : HistoryCommitScope :=
  historyCommitScope currentPath commit.entry.operation (.text commit.entry.path)
    commit.recordedFromPath

/-- What a commit is to the walk that follows a path. -/
def walkStep (commit : HistoryCommit) (currentPath : JsString) : WalkStep :=
  if currentPath ∈ commit.touched then
    match commit.scope currentPath with
    | .different => .passed
    | .matching previousPath stopsTraversal =>
        if commit.entry.operation = .create || stopsTraversal then .ended
        else .followed (previousPath.getD currentPath)
  else .passed

/-- The version a commit tells of, in the list of a path. -/
def version (rel : JsString) (commit : HistoryCommit) : FileHistoryEntry where
  id := (commit.commitEntry hashContent).id
  path := rel
  operation := commit.entry.operation
  actor := actorForContributors commit.entry.contributors
  integrationId := (actorForContributors commit.entry.contributors).client
  contributors := if commit.entry.contributors.isEmpty then none else some commit.entry.contributors
  pending := false
  commitId := some commit.hash
  createdAt := toISOString commit.entry.bucketStart
  updatedAt := toISOString commit.entry.updatedAt
  size := (commit.commitEntry hashContent).size
  contentHash := (commit.commitEntry hashContent).contentHash

/-- The message of the commit can be read back. -/
def Legible (commit : HistoryCommit) : Prop := (commit.commitEntry hashContent).Legible

theorem legible_of_entry {commit : HistoryCommit}
    (legible : (commit.entry.commitEntry hashContent).Legible) : commit.Legible hashContent := by
  unfold Legible commitEntry
  split
  · exact ⟨legible.path, legible.fromPath, legible.contributors, legible.labels⟩
  · exact legible

/-- The record of a commit as the log shows it. -/
def shown (commit : HistoryCommit) : HistoryLogRecord :=
  (commit.commitEntry hashContent).shownRecord commit.now commit.hash
    (toISOString commit.committedAt)

end HistoryCommit

/-- The commits of a file, newest first, each with the path of the file there: the walk
over commits instead of their messages. -/
def chain : JsString → List HistoryCommit → List (HistoryCommit × JsString)
  | _, [] => []
  | currentPath, commit :: older =>
      match commit.walkStep currentPath with
      | .passed => chain currentPath older
      | .ended => [(commit, currentPath)]
      | .followed path => (commit, currentPath) :: chain path older

/-- What the walk returns for a commit it finds. -/
def committedRecord (rel : JsString) (found : HistoryCommit × JsString) :
    CommittedHistoryRecord where
  entry := found.1.version hashContent rel
  contentPath := found.2
  contentHashFormat := (found.1.commitEntry hashContent).contentHashFormat.map Subtype.val

namespace HistoryCommit

variable {hashContent}

theorem hash_injective {left right : HistoryCommit} (same : left.hash.1 = right.hash.1) :
    left.commitId = right.commitId :=
  decimal_injective same

theorem commitEntry_path (commit : HistoryCommit) :
    (commit.commitEntry hashContent).path = commit.entry.path := by
  unfold commitEntry
  split <;> rfl

theorem commitEntry_fromPath (commit : HistoryCommit) :
    (commit.commitEntry hashContent).fromPath = commit.entry.fromPath := by
  unfold commitEntry
  split <;> rfl

theorem logged_shown {commit : HistoryCommit} (legible : commit.Legible hashContent) :
    Logged (commit.shown hashContent) :=
  @CommitEntry.logged_shownRecord _ _ legible commit.hash
    ⟨toISOString commit.committedAt, token_toISOString _⟩ (decimal_ne_nil _) (toISOString_ne_nil _)

/-- The log shows a commit with its message. -/
theorem record_eq {commit : HistoryCommit} (legible : commit.Legible hashContent) :
    commit.record hashContent =
      { commit.shown hashContent with body := (commit.shown hashContent).body ++ [lineFeed] } := by
  unfold record shown CommitEntry.shownRecord
  rw [CommitEntry.storedMessage_eq legible]

/-- The version that a commit's message tells of. -/
theorem version_shown {commit : HistoryCommit} (legible : commit.Legible hashContent)
    (rel : JsString) :
    entryFromCommitValues rel (commit.shown hashContent).commitId
        (commit.shown hashContent).committedAt (commitValues (commit.shown hashContent).body) =
      some (commit.version hashContent rel) := by
  have recovered : (commit.commitEntry hashContent).Recovered commit.now rel
      (commit.shown hashContent) := CommitEntry.recovered_stored legible rel commit.hash _ rfl
  rw [recovered.values]
  unfold version commitEntry CommitEntry.bucketEnd now
  split <;> rfl

/-- The scope of a commit that its message tells. -/
theorem scope_shown {commit : HistoryCommit} (legible : commit.Legible hashContent)
    (currentPath : JsString) :
    historyCommitScope currentPath commit.entry.operation
        (commitPathValue (commitValues (commit.shown hashContent).body) pathJsonKey pathKey)
        (commitPathValue (commitValues (commit.shown hashContent).body) fromPathJsonKey
          fromPathKey) = commit.scope currentPath := by
  have recovered : (commit.commitEntry hashContent).Recovered commit.now []
      (commit.shown hashContent) := CommitEntry.recovered_stored legible [] commit.hash _ rfl
  rw [recovered.path, recovered.fromPath, commitEntry_path, commitEntry_fromPath]
  rfl

theorem format_shown {commit : HistoryCommit} (legible : commit.Legible hashContent) :
    (commitValues (commit.shown hashContent).body).get contentHashFormatKey =
      (commit.commitEntry hashContent).contentHashFormat.map Subtype.val :=
  (CommitEntry.recovered_stored legible [] commit.hash _ rfl).contentHashFormat

end HistoryCommit

section Walk

variable {hashContent} {commits : List HistoryCommit}

/-- The log for a path shows the commits that touch it. -/
theorem readHistoryLogSegment_eq (legible : ∀ commit ∈ commits, commit.Legible hashContent)
    (currentPath : JsString) :
    readHistoryLogSegment hashContent currentPath commits =
      (commits.filter fun commit => currentPath ∈ commit.touched).map
        (HistoryCommit.shown hashContent) := by
  unfold readHistoryLogSegment
  generalize shape : commits.filter (fun commit => currentPath ∈ commit.touched) = listed
  have each : ∀ commit ∈ listed, commit.Legible hashContent := by
    intro commit member
    rw [← shape] at member
    exact legible commit (List.mem_filter.mp member).1
  have texts : listed.flatMap (fun commit => logText (commit.record hashContent)) =
      (listed.map (HistoryCommit.shown hashContent)).flatMap fun record =>
        logText { record with body := record.body ++ [lineFeed] } := by
    rw [List.flatMap_map]
    refine List.flatMap_congr fun commit member => ?_
    rw [HistoryCommit.record_eq (each commit member)]
  rw [texts, readHistoryLog_logText]
  intro record member
  obtain ⟨commit, listed, rfl⟩ := List.mem_map.mp member
  exact HistoryCommit.logged_shown (each commit listed)

/-- A commit that the log for a path shows is scanned by its scope. -/
theorem scanSegment_cons {commit : HistoryCommit} (legible : commit.Legible hashContent)
    {rel currentPath : JsString} {seenCommitIds : List JsString}
    (fresh : commit.hash.1 ∉ seenCommitIds) (records : List HistoryLogRecord) :
    scanSegment rel currentPath seenCommitIds (commit.shown hashContent :: records) =
      match commit.scope currentPath with
      | .different => scanSegment rel currentPath seenCommitIds records
      | .matching previousPath stopsTraversal =>
          if commit.entry.operation = .create || stopsTraversal then
            ([committedRecord hashContent rel (commit, currentPath)],
              commit.hash.1 :: seenCommitIds, .returned)
          else
            match previousPath with
            | some path => ([committedRecord hashContent rel (commit, currentPath)],
                commit.hash.1 :: seenCommitIds, .moved path commit.hash)
            | none =>
                let rest := scanSegment rel currentPath (commit.hash.1 :: seenCommitIds) records
                (committedRecord hashContent rel (commit, currentPath) :: rest.1, rest.2) := by
  have version := HistoryCommit.version_shown legible rel
  have scope := HistoryCommit.scope_shown legible currentPath
  have format := HistoryCommit.format_shown legible
  have named : (commit.shown hashContent).commitId = commit.hash := rfl
  have operation : (commit.version hashContent rel).operation = commit.entry.operation := rfl
  have found : committedRecord hashContent rel (commit, currentPath) =
      ⟨commit.version hashContent rel, currentPath,
        (commitValues (commit.shown hashContent).body).get contentHashFormatKey⟩ := by
    rw [format]
    rfl
  rw [found]
  rw [scanSegment]
  dsimp only
  rw [version]
  dsimp only
  rw [operation, scope, named]
  cases commit.scope currentPath with
  | different => rfl
  | matching previousPath stopsTraversal =>
      dsimp only
      rw [if_neg fresh, if_neg fresh]
      rfl

/-- The commits before the first one, when another is asked for. -/
theorem ancestors_cons {commit : HistoryCommit} {commitId : JsString}
    (other : commit.hash.1 ≠ commitId) (commits : List HistoryCommit) :
    ancestors (commit :: commits) commitId = ancestors commits commitId := by
  unfold ancestors
  rw [List.dropWhile_cons_of_pos (by simpa using other)]

theorem ancestors_self (commit : HistoryCommit) (commits : List HistoryCommit) :
    ancestors (commit :: commits) commit.hash = commits := by
  unfold ancestors
  rw [List.dropWhile_cons_of_neg (by simp)]
  rfl

/-- No commit has an id that was seen. -/
def Unseen (seenCommitIds : List JsString) (commits : List HistoryCommit) : Prop :=
  ∀ commit ∈ commits, commit.hash.1 ∉ seenCommitIds

theorem Unseen.cons {commit : HistoryCommit} {seenCommitIds : List JsString}
    (unseen : Unseen seenCommitIds commits)
    (distinct : ((commit :: commits).map HistoryCommit.commitId).Nodup) :
    Unseen (commit.hash.1 :: seenCommitIds) commits := by
  intro other member
  rw [List.mem_cons]
  rintro (same | seen)
  · exact (List.nodup_cons.mp distinct).1
      (HistoryCommit.hash_injective same ▸ List.mem_map_of_mem member)
  · exact unseen other member seen

/-- What is left of the walk after a segment: nothing, or the walk from a commit of the
segment along another path. -/
inductive Continues (hashContent : JsString → Token) (rel currentPath : JsString)
    (commits : List HistoryCommit)
    (scanned : List CommittedHistoryRecord × List JsString × SegmentEnd) : Prop where
  | ended (final : ∀ path commitId, scanned.2.2 ≠ .moved path commitId)
      (found : (chain currentPath commits).map (committedRecord hashContent rel) = scanned.1)
  | moved (path : JsString) (commit : HistoryCommit) (member : commit ∈ commits)
      (leaves : scanned.2.2 = .moved path commit.hash)
      (shorter : (ancestors commits commit.hash).length < commits.length)
      (older : (ancestors commits commit.hash).Sublist commits)
      (unseen : Unseen scanned.2.1 (ancestors commits commit.hash))
      (found : (chain currentPath commits).map (committedRecord hashContent rel) =
        scanned.1 ++ (chain path (ancestors commits commit.hash)).map
          (committedRecord hashContent rel))

/-- The rest of the walk is the same one commit later, which may add what it finds. -/
theorem Continues.cons {rel currentPath : JsString} {commit : HistoryCommit}
    {scanned : List CommittedHistoryRecord × List JsString × SegmentEnd}
    (continues : Continues hashContent rel currentPath commits scanned)
    (distinct : ((commit :: commits).map HistoryCommit.commitId).Nodup)
    {front : List (HistoryCommit × JsString)}
    (step : chain currentPath (commit :: commits) = front ++ chain currentPath commits) :
    Continues hashContent rel currentPath (commit :: commits)
      (front.map (committedRecord hashContent rel) ++ scanned.1, scanned.2) := by
  cases continues with
  | ended final found =>
      refine .ended final ?_
      rw [step, List.map_append, found]
  | moved path other member leaves shorter older unseen found =>
      have apart : commit.hash.1 ≠ other.hash.1 := fun same =>
        (List.nodup_cons.mp distinct).1
          (HistoryCommit.hash_injective same ▸ List.mem_map_of_mem member)
      have same := ancestors_cons apart commits
      refine .moved path other (List.mem_cons_of_mem _ member) leaves ?_ ?_ ?_ ?_
      · rw [same]
        exact Nat.lt_succ_of_lt shorter
      · rw [same]
        exact older.cons _
      · rw [same]
        exact unseen
      · rw [same, step, List.map_append, found, List.append_assoc]

/-- **One segment.** Scanning the log for a path finds what the chain of the path lists, up
to the commit where the walk leaves the segment. -/
theorem scanSegment_spec (legible : ∀ commit ∈ commits, commit.Legible hashContent)
    (distinct : (commits.map HistoryCommit.commitId).Nodup) (rel currentPath : JsString)
    {seenCommitIds : List JsString} (unseen : Unseen seenCommitIds commits) :
    Continues hashContent rel currentPath commits
      (scanSegment rel currentPath seenCommitIds
        (readHistoryLogSegment hashContent currentPath commits)) := by
  rw [readHistoryLogSegment_eq legible]
  induction commits generalizing seenCommitIds with
  | nil => exact .ended (fun _ _ => nofun) rfl
  | cons commit older ih =>
      have rest := @ih (fun other member => legible other (List.mem_cons_of_mem _ member))
        (List.nodup_cons.mp distinct).2
      have later : Unseen seenCommitIds older :=
        fun other member => unseen other (List.mem_cons_of_mem _ member)
      by_cases touches : currentPath ∈ commit.touched
      · rw [List.filter_cons_of_pos (by simpa using touches), List.map_cons,
          scanSegment_cons (legible commit List.mem_cons_self) (unseen commit List.mem_cons_self)]
        cases scope : commit.scope currentPath with
        | different =>
            have passed : chain currentPath (commit :: older) = [] ++ chain currentPath older := by
              rw [chain, HistoryCommit.walkStep, if_pos touches, scope]
              rfl
            exact (rest later).cons distinct passed
        | matching previousPath stopsTraversal =>
            dsimp only
            by_cases ends : (commit.entry.operation = .create || stopsTraversal) = true
            · have ended : chain currentPath (commit :: older) = [(commit, currentPath)] := by
                rw [chain, HistoryCommit.walkStep, if_pos touches, scope]
                dsimp only
                rw [if_pos ends]
              rw [if_pos ends]
              refine .ended (fun _ _ => nofun) ?_
              rw [ended]
              rfl
            · have followed : chain currentPath (commit :: older) =
                  [(commit, currentPath)] ++ chain (previousPath.getD currentPath) older := by
                rw [chain, HistoryCommit.walkStep, if_pos touches, scope]
                dsimp only
                rw [if_neg ends]
                rfl
              rw [if_neg ends]
              cases previousPath with
              | none => exact (rest (later.cons distinct)).cons distinct followed
              | some path =>
                  have same := ancestors_self commit older
                  refine .moved path commit List.mem_cons_self rfl ?_ ?_ ?_ ?_
                  · rw [same]
                    exact Nat.lt_succ_self _
                  · rw [same]
                    exact List.sublist_cons_self _ _
                  · rw [same]
                    exact later.cons distinct
                  · rw [same, followed]
                    rfl
      · have passed : chain currentPath (commit :: older) = [] ++ chain currentPath older := by
          rw [chain, HistoryCommit.walkStep, if_neg touches]
          rfl
        rw [List.filter_cons_of_neg (by simpa using touches)]
        exact (rest later).cons distinct passed

/-- The walk finds the commits of the chain. -/
theorem walkLoop_eq {fuel : Nat} (fueled : commits.length < fuel)
    (legible : ∀ commit ∈ commits, commit.Legible hashContent)
    (distinct : (commits.map HistoryCommit.commitId).Nodup) (rel currentPath : JsString)
    {seenCommitIds : List JsString} (unseen : Unseen seenCommitIds commits) :
    walkLoop hashContent rel fuel currentPath seenCommitIds commits =
      (chain currentPath commits).map (committedRecord hashContent rel) := by
  induction fuel generalizing commits currentPath seenCommitIds with
  | zero => exact absurd fueled (Nat.not_lt_zero _)
  | succ fuel ih =>
      have continues := scanSegment_spec legible distinct rel currentPath unseen
      unfold walkLoop
      dsimp only
      cases continues with
      | ended final found =>
          split
          · rename_i path commitId leaves
            exact absurd leaves (final path commitId)
          · exact found.symm
      | moved path commit member leaves shorter older unseen found =>
          rw [leaves]
          dsimp only
          rw [ih (by omega) (fun other member => legible other (older.subset member))
            (distinct.sublist (older.map _)) path unseen, found]

end Walk

/-- **The walk through the log is a walk over the commits.** -/
theorem FileHistory.readCommittedHistory_eq {hashContent : JsString → Token}
    {history : FileHistory} (legible : ∀ commit ∈ history.commits, commit.Legible hashContent)
    (distinct : (history.commits.map HistoryCommit.commitId).Nodup) (rel : JsString) :
    history.readCommittedHistory hashContent rel =
      (chain rel history.commits).map (committedRecord hashContent rel) :=
  walkLoop_eq (Nat.lt_succ_self _) legible distinct rel rel fun _ _ => nofun

end Kb1Daemon
