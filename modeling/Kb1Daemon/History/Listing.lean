import Kb1Daemon.History.RoundTrip
import Kb1Daemon.History.Queue

/-! # Listing the versions of a file

The versions of a file are the entries in memory and what a walk through the log finds:
it follows a file back through its moves and stops at a creation.
-/

namespace Kb1Daemon

open JsString

/-- The units of UTF-8 that a text takes; `paired` says that the unit before is the first
one of a surrogate pair. A lone surrogate is replaced. -/
def utf8Length (paired : Bool) : JsString → Nat
  | [] => 0
  | unit :: rest =>
      let pairs := Json.isHighSurrogate unit && rest.head?.any Json.isLowSurrogate
      (if unit < 0x80 then 1
        else if unit < 0x800 then 2
        else if pairs || (paired && Json.isLowSurrogate unit) then 2
        else 3) + utf8Length pairs rest

def gitBlobContentHashFormat : Token := ⟨units "git-blob-v1", rfl⟩

/-- The text of an entry's id, for which its number stands. -/
def pendingId (number : Nat) : Token :=
  ⟨units "pending-" ++ decimal number, by
    rw [List.all_append, token_decimal]
    decide⟩

/-- The text of the id of a moved folder. -/
def folderMoveId (number : Nat) : Token :=
  ⟨units "folder-move-" ++ decimal number, by
    rw [List.all_append, token_decimal]
    decide⟩

variable (hashContent : JsString → Token)

/-- The entry of a version's commit. Without content filters Git stages the content as it
is. -/
def PendingHistoryEntry.commitEntry (entry : PendingHistoryEntry) : CommitEntry where
  id := pendingId entry.id
  path := entry.path
  fromPath := entry.fromPath
  operation := entry.operation
  bucketStart := entry.bucketStart
  updatedAt := entry.updatedAt
  size := utf8Length false entry.content
  contentHash := hashContent entry.content
  contentHashFormat := some gitBlobContentHashFormat
  contributors := entry.contributors

/-- The entry of a moved folder's commit. -/
def PendingHistoryEntry.folderCommitEntry (entry : PendingHistoryEntry) : CommitEntry where
  id := folderMoveId entry.id
  path := entry.path
  fromPath := entry.fromPath
  operation := entry.operation
  bucketStart := entry.bucketStart
  updatedAt := entry.updatedAt
  size := 0
  contentHash := ⟨[], rfl⟩
  contentHashFormat := none
  contributors := entry.contributors

namespace HistoryCommit

def commitEntry (commit : HistoryCommit) : CommitEntry :=
  if commit.folder then commit.entry.folderCommitEntry else commit.entry.commitEntry hashContent

/-- The end of the window that the message tells: a moved folder is committed with a time. -/
def now (commit : HistoryCommit) : Option Nat :=
  if commit.folder then some commit.entry.updatedAt else none

/-- The hash of a commit, for which its number stands. -/
def hash (commit : HistoryCommit) : Token := ⟨decimal commit.commitId, token_decimal _⟩

/-- The record of a commit in the log. -/
def record (commit : HistoryCommit) : HistoryLogRecord where
  commitId := commit.hash
  committedAt := toISOString commit.committedAt
  body := storedMessage ((commit.commitEntry hashContent).commitMessage commit.now)

end HistoryCommit

/-- The records of the log for a path. -/
def readHistoryLogSegment (currentPath : JsString) (commits : List HistoryCommit) :
    List HistoryLogRecord :=
  readHistoryLog ((commits.filter fun commit => currentPath ∈ commit.touched).flatMap
    fun commit => logText (commit.record hashContent))

/-- What a commit is to the file at a path. -/
inductive HistoryCommitScope where
  | different
  | matching (previousPath : Option JsString) (stopsTraversal : Bool)
  deriving DecidableEq, Repr

def historyCommitScope (currentPath : JsString) (operation : FileHistoryOperation)
    (recordedPath fromPath : CommitPath) : HistoryCommitScope :=
  match recordedPath with
  | .undefined => .matching none false
  | .null => .different
  | .text recordedPath =>
      let suffix :=
        if recordedPath = currentPath then some []
        else if operation = .move then relativeDescendantPath recordedPath currentPath
        else none
      match suffix with
      | none => .different
      | some suffix =>
          if operation ≠ .move ∧ operation ≠ .rename then .matching none false
          else
            match fromPath with
            | .undefined => .matching none true
            | .null => .matching none true
            | .text fromPath =>
                let previousPath := if suffix.isEmpty then fromPath else fromPath ++ slash :: suffix
                if validateVaultPath previousPath .file then .matching (some previousPath) false
                else .matching none true

structure CommittedHistoryRecord where
  entry : FileHistoryEntry
  contentPath : JsString
  contentHashFormat : Option JsString
  deriving DecidableEq

/-- How the walk leaves a segment of the log. -/
inductive SegmentEnd where
  | returned
  | exhausted
  | moved (previousPath commitId : JsString)
  deriving DecidableEq, Repr

/-- The versions in a segment of the log, and the ids of the commits seen so far. -/
def scanSegment (rel currentPath : JsString) : List JsString → List HistoryLogRecord →
    List CommittedHistoryRecord × List JsString × SegmentEnd
  | seenCommitIds, [] => ([], seenCommitIds, .exhausted)
  | seenCommitIds, record :: records =>
      let values := commitValues record.body
      match entryFromCommitValues rel record.commitId record.committedAt values with
      | none => scanSegment rel currentPath seenCommitIds records
      | some parsed =>
          match historyCommitScope currentPath parsed.operation
              (commitPathValue values pathJsonKey pathKey)
              (commitPathValue values fromPathJsonKey fromPathKey) with
          | .different => scanSegment rel currentPath seenCommitIds records
          | .matching previousPath stopsTraversal =>
              let seen := record.commitId ∈ seenCommitIds
              let found := if seen then []
                else [⟨parsed, currentPath, values.get contentHashFormatKey⟩]
              let seenCommitIds := if seen then seenCommitIds else record.commitId :: seenCommitIds
              if parsed.operation = .create || stopsTraversal then (found, seenCommitIds, .returned)
              else
                match previousPath with
                | some path => (found, seenCommitIds, .moved path record.commitId)
                | none =>
                    let rest := scanSegment rel currentPath seenCommitIds records
                    (found ++ rest.1, rest.2)

/-- The commits before one, `commitId^`. -/
def ancestors (commits : List HistoryCommit) (commitId : JsString) : List HistoryCommit :=
  (commits.dropWhile fun commit => commit.hash.1 ≠ commitId).drop 1

/-- The walk through the log: every segment follows one path. -/
def walkLoop (rel : JsString) : Nat → JsString → List JsString → List HistoryCommit →
    List CommittedHistoryRecord
  | 0, _, _, _ => []
  | fuel + 1, currentPath, seenCommitIds, commits =>
      let scanned := scanSegment rel currentPath seenCommitIds
        (readHistoryLogSegment hashContent currentPath commits)
      match scanned.2.2 with
      | .moved path commitId =>
          scanned.1 ++ walkLoop rel fuel path scanned.2.1 (ancestors commits commitId)
      | _ => scanned.1

/-- The platform's reading of time stamps and ordering of texts. -/
structure HistoryOrder where
  /-- `new Date(text).getTime()`. -/
  getTime : JsString → Int
  /-- `left.localeCompare(right) <= 0`. -/
  localeLe : JsString → JsString → Bool
  total : ∀ left right, localeLe left right = true ∨ localeLe right left = true
  trans : ∀ {first second third}, localeLe first second = true → localeLe second third = true →
    localeLe first third = true
  /-- Ids are printed ASCII, of which no two texts are alike. -/
  antisymm : ∀ {left right : Token}, localeLe left right = true → localeLe right left = true →
    left = right

/-- `compareHistoryEntriesDesc(left, right) <= 0`. -/
def HistoryOrder.before (order : HistoryOrder) (left right : FileHistoryEntry) : Bool :=
  order.getTime right.createdAt < order.getTime left.createdAt ||
    (order.getTime right.createdAt = order.getTime left.createdAt &&
      order.localeLe right.id left.id)

/-- An entry in memory as a version. -/
def pendingEntryToHistoryEntry (entry : PendingHistoryEntry) : FileHistoryEntry where
  id := pendingId entry.id
  path := entry.path
  operation := entry.operation
  actor := actorForContributors entry.contributors
  integrationId := (actorForContributors entry.contributors).client
  contributors := some entry.contributors
  pending := true
  commitId := none
  createdAt := toISOString entry.createdAt
  updatedAt := toISOString entry.updatedAt
  size := utf8Length false entry.content
  contentHash := hashContent entry.content

namespace FileHistory

def readCommittedHistory (history : FileHistory) (rel : JsString) : List CommittedHistoryRecord :=
  walkLoop hashContent rel (history.commits.length + 1) rel [] history.commits

def pendingEntriesForPath (history : FileHistory) (rel : JsString) : List FileHistoryEntry :=
  (history.pending.filter fun entry => entry.path = rel).map
    (pendingEntryToHistoryEntry hashContent)

/-- The versions that the pages of `listFileHistory` show, newest first. -/
def newestFirst (history : FileHistory) (order : HistoryOrder) (rel : JsString) :
    List FileHistoryEntry :=
  (history.pendingEntriesForPath hashContent rel ++
    (history.readCommittedHistory hashContent rel).map CommittedHistoryRecord.entry).insertionSort
      fun left right => order.before left right = true

end FileHistory

/-- The versions up to a cursor. -/
def applyHistoryCursor (order : HistoryOrder) (entries : List FileHistoryEntry)
    (before : Option Int) (beforeId : Option JsString) : List FileHistoryEntry :=
  match before with
  | none => entries
  | some before =>
      entries.filter fun entry =>
        if order.getTime entry.createdAt < before then true
        else if before < order.getTime entry.createdAt then false
        else
          match beforeId with
          | none => false
          | some beforeId => decide (entry.id < beforeId)

/-- `normalizePageLimit`, of an integer limit. -/
def normalizePageLimit (value : Option Int) : Nat :=
  match value with
  | none => 50
  | some value => if value < 1 then 50 else min value.toNat 200

/-- A page of the versions of a file, with whether there are more, unless the path is not
valid. The cursor is a time, or none if it is missing or no date. -/
def FileHistory.listFileHistory (history : FileHistory) (order : HistoryOrder) (rel : JsString)
    (before : Option Int) (beforeId : Option JsString) (limit : Option Int) :
    Option (List FileHistoryEntry × Bool) :=
  if validateVaultPath rel .file then
    let limited := applyHistoryCursor order (history.newestFirst hashContent order rel) before
      beforeId
    let entries := limited.take (normalizePageLimit limit)
    some (entries, entries.length < limited.length)
  else none

end Kb1Daemon
