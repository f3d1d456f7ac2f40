import Kb1Daemon.Foundation.Program
import Kb1Daemon.Foundation.IsoTime
import Kb1Daemon.Foundation.Utf8
import Kb1Daemon.Registry.Identity
import Kb1Daemon.Vault.Path

/-! # The file system as the vault sees it

The calls of the vault's operations, on resolved paths, and the path functions that compose them.
The file system gets a path as UTF-8, so that it knows no name with a lone surrogate (`onDisk`).
A valid vault path is resolved to a place below the root whose names are its segments
(`resolveVaultPath_of_valid`).
-/

namespace Kb1Daemon

open JsString

/-- The names from the root of the file system down; a resolved path. -/
abbrev Place := List JsString

/-- The names of a path. -/
def namesOf (path : JsString) : Place := path.splitOn slash

/-- The names that the file system gets for a path: what is a lone surrogate in the text has the
bytes of the replacement character. -/
def onDisk (path : Place) : Place := path.map Utf8.toWellFormed

/-- A name that a directory lists. -/
structure EntryName where
  text : JsString
  plain : slash ∉ text
  named : text ≠ [] ∧ text ≠ [dot] ∧ text ≠ [dot, dot]

/-- A text without separators, as the system gives it for a time or a fresh identifier. -/
structure PlainText where
  text : JsString
  plain : slash ∉ text

inductive NodeKind where
  | file
  | folder
  | other
  deriving DecidableEq, Repr

structure FileStat where
  kind : NodeKind
  size : Nat
  mtimeMs : Int
  deriving DecidableEq, Repr

structure Dirent where
  name : EntryName
  kind : NodeKind

inductive AuditOperation where
  | create
  | write
  | mkdir
  | delete
  | move
  deriving DecidableEq, Repr

structure AuditEntry where
  id : JsString
  ts : JsString
  operation : AuditOperation
  entityKind : NodeKind
  path : JsString
  fromPath : Option JsString
  toPath : Option JsString
  summary : JsString
  deriving DecidableEq, Repr

/-- What is in a file: bytes, a text that the YAML library reads as a value, or the lines of the
audit. -/
inductive FileContent where
  | bytes (stored : List UInt8)
  | yaml (value : Json)
  | audit (entries : List AuditEntry)

/-- The codes of a failed call that the operations tell apart. -/
inductive FsCode where
  | enoent
  | enotdir
  | eexist
  | exdev
  | other (code : JsString)
  deriving DecidableEq, Repr

/-- A call to the system, with the type of its answer; `mkdir` and `cp` are recursive. -/
inductive FsCall : Type → Type where
  | stat (path : Place) : FsCall (Except FsCode FileStat)
  | readdir (path : Place) : FsCall (Except FsCode (List Dirent))
  | mkdir (path : Place) : FsCall (Except FsCode Unit)
  | readFile (path : Place) : FsCall (Except FsCode FileContent)
  | writeFile (path : Place) (content : FileContent) : FsCall (Except FsCode Unit)
  | appendFile (path : Place) (entry : AuditEntry) : FsCall (Except FsCode Unit)
  | rename (source target : Place) : FsCall (Except FsCode Unit)
  | rm (path : Place) (recursive force : Bool) : FsCall (Except FsCode Unit)
  | cp (source target : Place) : FsCall (Except FsCode Unit)
  | copyFile (source target : Place) : FsCall (Except FsCode Unit)
  | randomUUID : FsCall PlainText
  | now : FsCall PlainText

/-- The paths a call passes to the file system. -/
def FsCall.paths {Answer : Type} : FsCall Answer → List Place
  | .stat path => [path]
  | .readdir path => [path]
  | .mkdir path => [path]
  | .readFile path => [path]
  | .writeFile path _ => [path]
  | .appendFile path _ => [path]
  | .rename source target => [source, target]
  | .rm path _ _ => [path]
  | .cp source target => [source, target]
  | .copyFile source target => [source, target]
  | .randomUUID => []
  | .now => []

/-- One segment of `normalizeString`: nothing and a dot are left out, and two dots take the
segment before them away, or stay where `above` allows it. -/
def normalizeSegment (above : Bool) (stack : List JsString) (segment : JsString) : List JsString :=
  if segment = [] ∨ segment = [dot] then stack
  else if segment = [dot, dot] then
    match stack.getLast? with
    | none => if above then stack ++ [segment] else stack
    | some last => if last = [dot, dot] then stack ++ [segment] else stack.dropLast
  else stack ++ [segment]

/-- `path.resolve`, of a path against a resolved one. -/
def pathResolve (base : Place) (path : JsString) : Place :=
  (path.splitOn slash).foldl (normalizeSegment false) (if path.head? = some slash then [] else base)

/-- `path.posix.normalize`, of a path without a separator at its end. -/
def posixNormalize (path : JsString) : JsString :=
  if path.head? = some slash then
    slash :: Segments.joined slash ((path.splitOn slash).foldl (normalizeSegment false) [])
  else
    match (path.splitOn slash).foldl (normalizeSegment true) [] with
    | [] => [dot]
    | segments => Segments.joined slash segments

/-- `path.posix.join`. -/
def posixJoin (parts : List JsString) : JsString :=
  posixNormalize (Segments.joined slash (parts.filter fun part => !part.isEmpty))

def isInternalVaultPath (input : JsString) : Bool :=
  !input.isEmpty && (input.splitOn slash).any isInternalSegment

/-- What an operation throws. -/
inductive VaultFailure where
  | system (code : FsCode)
  | invalidPath (input reason : JsString)
  | entryCapExceeded
  deriving DecidableEq, Repr

/-- Why a segment is refused. -/
def segmentReason (segment : JsString) : Option JsString :=
  if segment = [] then some (units "path contains an empty segment")
  else if segment = [dot] ∨ segment = [dot, dot] then
    some (units "path must not contain \".\" or \"..\" segments")
  else if maxSegmentLength < segment.length then some (units "segment exceeds 255 chars")
  else if isInternalSegment segment then some (segment ++ units " is reserved for vault metadata")
  else none

/-- Why `validateVaultPath` throws, if it does. -/
def invalidPathReason (input : JsString) (kind : VaultPathKind) : Option JsString :=
  if input = [] then some (units "path is empty")
  else if maxPathLength < input.length then some (units "path exceeds 1024 chars")
  else if input.contains backslash then some (units "path must use forward slashes")
  else if input.head? = some slash then some (units "path must be vault-relative")
  else if input.getLast? = some slash then some (units "path must not start or end with \"/\"")
  else
    match (input.splitOn slash).findSome? segmentReason with
    | some reason => some reason
    | none =>
        if kind = .file ∧ validFilename ((input.splitOn slash).getLastD []) = false then
          some (units "file paths must end in name.ext")
        else none

theorem segmentReason_eq_none_iff {segment : JsString} :
    segmentReason segment = none ↔ validSegment segment = true := by
  unfold segmentReason validSegment
  by_cases empty : segment = []
  · simp [empty]
  · by_cases dots : segment = [dot] ∨ segment = [dot, dot]
    · rcases dots with rfl | rfl <;> simp
    · rw [if_neg empty, if_neg dots]
      rw [not_or] at dots
      split_ifs with long internal
      · simp [not_le.mpr long]
      · simp [internal]
      · simp [empty, dots, not_lt.mp long, internal]

theorem validateVaultPath_iff {input : JsString} {kind : VaultPathKind} :
    validateVaultPath input kind = true ↔
      input ≠ [] ∧ input.length ≤ maxPathLength ∧ backslash ∉ input ∧ input.head? ≠ some slash ∧
        input.getLast? ≠ some slash ∧
        (∀ segment ∈ input.splitOn slash, validSegment segment = true) ∧
        (kind = .file → validFilename ((input.splitOn slash).getLastD []) = true) := by
  unfold validateVaultPath
  simp only [Bool.and_eq_true, Bool.or_eq_true, Bool.not_eq_true', List.isEmpty_eq_false_iff,
    decide_eq_true_eq, List.all_eq_true, List.contains_eq_mem, decide_eq_false_iff_not, and_assoc,
    ne_eq, imp_iff_not_or]

/-- A path is thrown out for a reason, unless it passes every check. -/
theorem invalidPathReason_eq_none_iff {input : JsString} {kind : VaultPathKind} :
    invalidPathReason input kind = none ↔ validateVaultPath input kind = true := by
  have segments : (input.splitOn slash).findSome? segmentReason = none ↔
      ∀ segment ∈ input.splitOn slash, validSegment segment = true := by
    rw [List.findSome?_eq_none_iff]
    exact forall₂_congr fun segment _ => segmentReason_eq_none_iff
  rw [validateVaultPath_iff, ← segments]
  unfold invalidPathReason
  by_cases empty : input = []
  · simp [empty]
  by_cases long : maxPathLength < input.length
  · simp [empty, long]
  by_cases backslashed : backslash ∈ input
  · simp [empty, long, backslashed]
  by_cases absolute : input.head? = some slash
  · simp [empty, long, backslashed, absolute]
  by_cases trailing : input.getLast? = some slash
  · simp [empty, long, backslashed, absolute, trailing]
  rw [if_neg empty, if_neg long, if_neg (fun held => backslashed (List.contains_iff_mem.mp held)),
    if_neg absolute, if_neg trailing]
  cases found : (input.splitOn slash).findSome? segmentReason with
  | some reason => simp
  | none => simp [empty, not_lt.mp long, backslashed, absolute, trailing]

section OnDisk

theorem onDisk_append (front rest : Place) : onDisk (front ++ rest) = onDisk front ++ onDisk rest :=
  List.map_append

theorem onDisk_dropLast (path : Place) : onDisk path.dropLast = (onDisk path).dropLast :=
  List.map_dropLast

/-- A path is well formed if each of its names is. -/
theorem isWellFormed_joined (names : Place) :
    Utf8.isWellFormed (Segments.joined slash names) = names.all Utf8.isWellFormed := by
  induction names with
  | nil => rfl
  | cons first rest ih =>
      cases rest with
      | nil => rw [Segments.joined_singleton, List.all_cons, List.all_nil, Bool.and_true]
      | cons second rest =>
          rw [Segments.joined_cons_cons, Utf8.isWellFormed_append_cons (by decide), ih,
            ← List.all_cons]

/-- The names of a well-formed path, and of no other one, are those on disk. -/
theorem onDisk_namesOf_iff {path : JsString} :
    onDisk (namesOf path) = namesOf path ↔ Utf8.isWellFormed path = true := by
  have whole : Utf8.isWellFormed path = (namesOf path).all Utf8.isWellFormed := by
    rw [← isWellFormed_joined, namesOf, Segments.joined_splitOn]
  rw [whole, List.all_eq_true]
  constructor
  · intro same name listed
    rw [← same] at listed
    obtain ⟨text, _, rfl⟩ := List.mem_map.mp listed
    exact Utf8.isWellFormed_toWellFormed text
  · intro formed
    refine (List.map_congr_left fun name listed => ?_).trans (List.map_id _)
    exact Utf8.toWellFormed_eq_self (formed name listed)

/-- No other name becomes internal on disk, and none ceases to be. -/
theorem isInternalSegment_toWellFormed (name : JsString) :
    isInternalSegment (Utf8.toWellFormed name) = isInternalSegment name := by
  have plain : internalVaultPathSegments.all (·.all fun unit =>
      !Utf8.isSurrogate unit && unit != Utf8.replacement) = true := by decide +kernel
  have visible : ∀ internal ∈ internalVaultPathSegments, ∀ unit ∈ internal,
      Utf8.isSurrogate unit = false ∧ unit ≠ Utf8.replacement := by
    intro internal listed unit own
    have each := List.all_eq_true.mp (List.all_eq_true.mp plain internal listed) unit own
    rwa [Bool.and_eq_true, Bool.not_eq_true', bne_iff_ne] at each
  unfold isInternalSegment
  rw [decide_eq_decide]
  constructor
  · intro internal
    rw [← (Utf8.toWellFormed_eq_iff (visible _ internal)).mp rfl] at internal
    exact internal
  · intro internal
    rw [(Utf8.toWellFormed_eq_iff (visible _ internal)).mpr rfl]
    exact internal

end OnDisk

/-- A segment that `path.resolve` and `path.posix.join` keep. -/
def PlainSegment (segment : JsString) : Prop :=
  segment ≠ [] ∧ segment ≠ [dot] ∧ segment ≠ [dot, dot]

theorem plainSegment_of_valid {segment : JsString} (valid : validSegment segment = true) :
    PlainSegment segment := by
  unfold validSegment at valid
  simp only [Bool.and_eq_true, Bool.not_eq_true', List.isEmpty_eq_false_iff, bne_iff_ne] at valid
  exact ⟨valid.1.1.1.1, valid.1.1.1.2, valid.1.1.2⟩

theorem foldl_normalizeSegment {above : Bool} {segments : List JsString}
    (plain : ∀ segment ∈ segments, PlainSegment segment) (stack : List JsString) :
    segments.foldl (normalizeSegment above) stack = stack ++ segments := by
  induction segments generalizing stack with
  | nil => exact (List.append_nil stack).symm
  | cons segment rest ih =>
      obtain ⟨some, single, double⟩ := plain segment List.mem_cons_self
      rw [List.foldl_cons, normalizeSegment, if_neg (not_or.mpr ⟨some, single⟩), if_neg double,
        ih fun other member => plain other (List.mem_cons_of_mem _ member), List.append_assoc,
        List.singleton_append]

theorem head?_joined_ne_slash {segments : List JsString} (some : segments ≠ [])
    (proper : ∀ segment ∈ segments, Segments.Proper slash segment) :
    (Segments.joined slash segments).head? ≠ Option.some slash := by
  obtain ⟨first, rest, rfl⟩ := List.exists_cons_of_ne_nil some
  obtain ⟨unit, units, same⟩ := List.exists_cons_of_ne_nil (proper first List.mem_cons_self).ne_nil
  have other : unit ≠ slash := by
    rintro rfl
    exact (proper first List.mem_cons_self).not_mem (by rw [same]; exact List.mem_cons_self)
  have head : (Segments.joined slash (first :: rest)).head? = Option.some unit := by
    cases rest with
    | nil => rw [Segments.joined_singleton, same, List.head?_cons]
    | cons second rest => rw [Segments.joined_cons_cons, same, List.cons_append, List.head?_cons]
  rw [head]
  exact fun equal => other (Option.some.inj equal)

/-- A path of plain segments is normal. -/
theorem posixNormalize_joined {segments : List JsString} (some : segments ≠ [])
    (plain : ∀ segment ∈ segments, PlainSegment segment ∧ slash ∉ segment) :
    posixNormalize (Segments.joined slash segments) = Segments.joined slash segments := by
  have proper : ∀ segment ∈ segments, Segments.Proper slash segment := fun segment member =>
    ⟨(plain segment member).1.1, (plain segment member).2⟩
  rw [posixNormalize, if_neg (head?_joined_ne_slash some proper),
    Segments.splitOn_joined proper some,
    foldl_normalizeSegment fun segment member => (plain segment member).1, List.nil_append]
  cases segments with
  | nil => exact absurd rfl some
  | cons first rest => rfl

/-- Paths of plain segments are joined to the path of all the segments. -/
theorem posixJoin_of_plain {parts : List JsString} (some : parts ≠ [])
    (plain : ∀ part ∈ parts, ∀ segment ∈ part.splitOn slash, PlainSegment segment) :
    posixJoin parts = Segments.joined slash (parts.flatMap (List.splitOn slash)) := by
  have kept : parts.filter (fun part => !part.isEmpty) = parts := by
    rw [List.filter_eq_self]
    intro part member
    rw [Bool.not_eq_true', List.isEmpty_eq_false_iff]
    rintro rfl
    exact (plain [] member [] (by rw [List.splitOn_nil]; exact List.mem_cons_self)).1 rfl
  have nonempty : parts.flatMap (List.splitOn slash) ≠ [] := by
    obtain ⟨first, rest, rfl⟩ := List.exists_cons_of_ne_nil some
    rw [List.flatMap_cons]
    exact List.append_ne_nil_of_left_ne_nil (List.splitOn_ne_nil slash first) _
  rw [posixJoin, kept, ← Segments.joined_flatMap_splitOn, posixNormalize_joined nonempty]
  intro segment member
  obtain ⟨part, listed, own⟩ := List.mem_flatMap.mp member
  exact ⟨plain part listed segment own, Segments.not_mem_of_mem_splitOn part segment own⟩

theorem splitOn_posixJoin {parts : List JsString} (some : parts ≠ [])
    (plain : ∀ part ∈ parts, ∀ segment ∈ part.splitOn slash, PlainSegment segment) :
    (posixJoin parts).splitOn slash = parts.flatMap (List.splitOn slash) := by
  have nonempty : parts.flatMap (List.splitOn slash) ≠ [] := by
    obtain ⟨first, rest, rfl⟩ := List.exists_cons_of_ne_nil some
    rw [List.flatMap_cons]
    exact List.append_ne_nil_of_left_ne_nil (List.splitOn_ne_nil slash first) _
  rw [posixJoin_of_plain some plain, Segments.splitOn_joined _ nonempty]
  intro segment member
  obtain ⟨part, listed, own⟩ := List.mem_flatMap.mp member
  exact ⟨(plain part listed segment own).1, Segments.not_mem_of_mem_splitOn part segment own⟩

/-- A path with a plain first segment is relative. -/
theorem relative_of_plain {path : JsString}
    (plain : ∀ segment ∈ path.splitOn slash, PlainSegment segment) : path.head? ≠ some slash := by
  rw [← @Segments.joined_splitOn _ _ slash path]
  refine head?_joined_ne_slash (List.splitOn_ne_nil slash path) fun segment member => ?_
  exact ⟨(plain segment member).1, Segments.not_mem_of_mem_splitOn path segment member⟩

/-- A path of plain segments leads to the place of these below the base. -/
theorem resolve_of_plain {path : JsString}
    (plain : ∀ segment ∈ path.splitOn slash, PlainSegment segment) (base : Place) :
    pathResolve base path = base ++ path.splitOn slash := by
  rw [pathResolve, if_neg (relative_of_plain plain), foldl_normalizeSegment plain]

/-- `resolveVaultPath`, on a root that is resolved against the working directory. -/
def resolveVaultPath (cwd : Place) (root relPath : JsString) : Except VaultFailure Place :=
  if pathResolve (pathResolve cwd root) relPath = pathResolve cwd root ∨
      (pathResolve cwd root ≠ [] ∧
        pathResolve cwd root <+: pathResolve (pathResolve cwd root) relPath) then
    .ok (pathResolve (pathResolve cwd root) relPath)
  else .error (.invalidPath relPath (units "path escapes vault root"))

theorem resolveVaultPath_of_plain {cwd : Place} {root relPath : JsString} {place : Place}
    (plain : ∀ segment ∈ relPath.splitOn slash, PlainSegment segment)
    (resolved : resolveVaultPath cwd root relPath = .ok place) :
    place = pathResolve cwd root ++ relPath.splitOn slash := by
  unfold resolveVaultPath at resolved
  rw [resolve_of_plain plain] at resolved
  split_ifs at resolved
  exact (Except.ok.inj resolved).symm

end Kb1Daemon
