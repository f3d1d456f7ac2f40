import Kb1Daemon.Foundation.JsNumber
import Kb1Daemon.Vault.Operations

/-! # Searching the notes of a vault

The walk that collects the notes, and the lines that match. The walk has no bound of its own; it
is followed a given number of levels deep.
-/

namespace Kb1Daemon

open JsString

structure SearchInput where
  q : JsString
  under : Option JsString
  context : Option JsNumber
  limit : Option JsNumber
  offset : Option JsNumber
  deriving DecidableEq, Repr

structure SearchHit where
  path : JsString
  line : Nat
  lineText : JsString
  before : List JsString
  after : List JsString
  deriving DecidableEq, Repr

structure SearchResult where
  q : JsString
  under : JsString
  limit : Nat
  offset : Nat
  total : Nat
  truncated : Bool
  results : List SearchHit
  deriving DecidableEq, Repr

def defaultContextLines : Nat := 2
def maxContextLines : Nat := 5
def defaultSearchLimit : Nat := 20
def maxSearchLimit : Nat := 100
def searchEntryCap : Nat := 5000
def maxSafeOffset : Nat := 2 ^ 53 - 1

def clampPositiveInteger (value : Option JsNumber) (fallback max : Nat) : Nat :=
  match value with
  | some (.finite value) => if value ≤ 0 then fallback else min value.floor.toNat max
  | _ => fallback

def clampNonNegativeInteger (value : Option JsNumber) (fallback max : Nat) : Nat :=
  match value with
  | some (.finite value) => if value < 0 then fallback else min value.floor.toNat max
  | _ => fallback

def trashName : JsString := units "trash"

def isExcludedSearchPath (relPath : JsString) : Bool :=
  isInternalVaultPath relPath || relPath = trashName || isUnder trashName relPath

def isMarkdownLikePath (relPath : JsString) : Bool :=
  (units ".md").isSuffixOf relPath || (units ".markdown").isSuffixOf relPath ||
    (units ".txt").isSuffixOf relPath

/-- The text of a note. -/
def FileContent.text : FileContent → JsString
  | .bytes stored => Utf8.decode stored
  | .yaml _ => []
  | .audit _ => []

/-- The text of a note is what was written, without lone surrogates. -/
theorem FileContent.text_encode (content : JsString) :
    (FileContent.bytes (Utf8.encode content)).text = Utf8.toWellFormed content := by
  rw [FileContent.text, ← Utf8.encode_toWellFormed,
    Utf8.decode_encode (Utf8.isWellFormed_toWellFormed content)]

/-- One line of a file, with its index, against the query; only the hits of the page are kept. -/
def searchLine (host : VaultHost) (lowerQuery : JsString) (offset limit context : Nat)
    (filePath : JsString) (lines : List JsString) (found : List SearchHit × Nat)
    (row : JsString × Nat) : List SearchHit × Nat :=
  if ¬ lowerQuery <:+: host.toLocaleLowerCase row.1 then found
  else if found.2 < offset ∨ limit ≤ found.1.length then (found.1, found.2 + 1)
  else
    (found.1 ++ [⟨filePath, row.2 + 1, row.1, (lines.take row.2).drop (row.2 - context),
      (lines.drop (row.2 + 1)).take context⟩], found.2 + 1)

namespace VaultContext

variable (ctx : VaultContext)

/-- The rows of a directory: notes are collected until the cap, folders walked. -/
def walkRows (descend : JsString → List JsString → VaultProgram (List JsString × Bool)) :
    List (Dirent × JsString) → List JsString → VaultProgram (List JsString × Bool)
  | [], files => .done (files, false)
  | (dirent, rel) :: rows, files =>
      if isExcludedSearchPath rel then walkRows descend rows files
      else
        match dirent.kind with
        | .folder => do
            let walked ← descend rel files
            if walked.2 then .done (walked.1, true) else walkRows descend rows walked.1
        | .file =>
            if isMarkdownLikePath rel then
              if searchEntryCap ≤ (files ++ [rel]).length then .done (files ++ [rel], true)
              else walkRows descend rows (files ++ [rel])
            else walkRows descend rows files
        | .other => walkRows descend rows files

/-- The walk below a directory, with whether the cap was reached. -/
def walk : Nat → JsString → List JsString → VaultProgram (List JsString × Bool)
  | 0, _, files => .done (files, false)
  | below + 1, relDir, files => do
      let absDir ← ctx.directoryAt relDir
      let dirents ← attempt (.readdir absDir)
      walkRows (fun rel found => walk below rel found)
        (dirents.map fun dirent =>
          (dirent, if relDir = [] then dirent.name.text else posixJoin [relDir, dirent.name.text]))
        files

def collectSearchableFiles (levels : Nat) (under : JsString) :
    VaultProgram (List JsString × Bool) := do
  let start ← ctx.directoryAt under
  let startStat ← statOrNull start
  if startStat.map FileStat.kind ≠ some .folder then return ([], false)
  else
    let walked ← ctx.walk levels under []
    return (walked.1.mergeSort ctx.host.localeLe, walked.2)

/-- The collected files, searched one after another. -/
def searchFiles (lowerQuery : JsString) (offset limit context : Nat) :
    List JsString → List SearchHit × Nat → VaultProgram (List SearchHit × Nat)
  | [], found => .done found
  | filePath :: files, found => do
      let absolute ← ctx.vaultPath filePath
      let content ← attempt (.readFile absolute)
      let lines := content.text.splitOn lineFeed
      searchFiles lowerQuery offset limit context files
        (lines.zipIdx.foldl
          (searchLine ctx.host lowerQuery offset limit context filePath lines) found)

/-- `searchVaultFiles`. -/
def searchVaultFiles (levels : Nat) (input : SearchInput) : VaultProgram SearchResult := do
  let limit := clampPositiveInteger input.limit defaultSearchLimit maxSearchLimit
  let offset := clampNonNegativeInteger input.offset 0 maxSafeOffset
  if trim input.q = [] then return ⟨input.q, [], limit, offset, 0, false, []⟩
  else
    let under ← validatedOptionalPath input.under .folder
    let context := clampNonNegativeInteger input.context defaultContextLines maxContextLines
    let collected ← ctx.collectSearchableFiles levels under
    let found ← ctx.searchFiles (ctx.host.toLocaleLowerCase (trim input.q)) offset limit context
      collected.1 ([], 0)
    return ⟨input.q, under, limit, offset, found.2, collected.2, found.1⟩

end VaultContext

end Kb1Daemon
