import Kb1Daemon.Foundation.HostText
import Kb1Daemon.Foundation.Json
import Kb1Daemon.Foundation.Segments
import Kb1Daemon.Foundation.Table
import Kb1Daemon.Vault.Path
import Mathlib.Data.List.Sort

/-! # The names of a snapshot

A snapshot renames what other file systems refuse: a segment that is not portable, one that
has a sibling of the same key, and one that looks like a generated name get a name made of
the reserved prefix, the digest of the segment and its extension. The walk over the tree of
paths gives every path and every path above it its name.
-/

namespace Kb1Daemon

open JsString

def encodedSegmentPrefix : JsString := units "~kb1-"

/-- A letter of ASCII as an expression without regard to case reads it. -/
def foldUnit (unit : CodeUnit) : CodeUnit := if 65 ≤ unit && unit ≤ 90 then unit + 32 else unit

/-- The digits of `[1-9¹²³]`. -/
def isPortDigit (unit : CodeUnit) : Bool :=
  (49 ≤ unit && unit ≤ 57) || unit ∈ ([0xB9, 0xB2, 0xB3] : List CodeUnit)

/-- `WINDOWS_RESERVED_BASENAME`. -/
def isWindowsReservedBasename (segment : JsString) : Bool :=
  let basename := (segment.takeWhile (· ≠ dot)).map foldUnit
  basename ∈ [units "con", units "prn", units "aux", units "nul"] ||
    (basename.take 3 ∈ [units "com", units "lpt"] && basename.length = 4 &&
      (basename.drop 3).all isPortDigit)

/-- `WINDOWS_INVALID_CHARACTER`. -/
def isWindowsInvalidCharacter (unit : CodeUnit) : Bool := unit ∈ units "<>:\"\\|?*" || unit < 32

def isPortableSnapshotSegment (segment : JsString) : Bool :=
  !segment.any isWindowsInvalidCharacter &&
    !(segment.getLast? = some dot || segment.getLast? = some 32) &&
    !isWindowsReservedBasename segment

/-- ZIP paths are relative POSIX paths. -/
def assertSafeSnapshotPath (path : JsString) : Except JsString Unit :=
  if path.contains backslash || path.contains 0 || (path.splitOn slash).any fun segment =>
      segment.isEmpty || segment = [dot] || segment = [dot, dot] then
    .error (units "Unsafe snapshot path: " ++ Json.stringifyString path)
  else .ok ()

/-- `path.extname`, of a segment. -/
def extname (segment : JsString) : JsString :=
  match segment.reverse.idxOf? dot with
  | none => []
  | some back =>
      let place := segment.length - 1 - back
      if place = 0 || segment = [dot, dot] then [] else segment.drop place

/-- The extensions a generated name keeps. -/
def keepsExtension (extension : JsString) : Bool :=
  match extension with
  | [] => false
  | mark :: rest =>
      mark = dot && 1 ≤ rest.length && rest.length ≤ 10 &&
        rest.all fun unit => (97 ≤ foldUnit unit && foldUnit unit ≤ 122) || isDigit unit

/-- A digit of a digest. -/
def isHexDigit (unit : CodeUnit) : Bool := isDigit unit || (97 ≤ unit && unit ≤ 102)

/-- The names of a snapshot are made with the host's Unicode tables and with a digest, whose
text has 64 hexadecimal digits. -/
structure SnapshotHost extends HostText where
  sha256 : JsString → JsString
  length_sha256 : ∀ text, (sha256 text).length = 64
  sha256_hex : ∀ text, ∀ unit ∈ sha256 text, isHexDigit unit = true

namespace SnapshotHost

variable (host : SnapshotHost)

def portableKey (segment : JsString) : JsString := host.toLowerCase (host.normalizeNFC segment)

/-- The segment starts like a generated name. -/
def isReserved (segment : JsString) : Bool :=
  encodedSegmentPrefix.isPrefixOf (host.toLowerCase segment)

def needsMapping (siblings : List JsString) (segment : JsString) : Bool :=
  !isPortableSnapshotSegment segment ||
    1 < (siblings.map host.portableKey).count (host.portableKey segment) || host.isReserved segment

/-- The generated name of a segment. -/
def generatedName (segment : JsString) : JsString :=
  encodedSegmentPrefix ++ host.sha256 segment ++
    if keepsExtension (extname segment) then extname segment else []

/-- The name of a segment among its siblings. -/
def portableName (siblings : List JsString) (segment : JsString) : JsString :=
  if host.needsMapping siblings segment then host.generatedName segment else segment

end SnapshotHost

/-- The entries of the directories. -/
abbrev SnapshotChildren := Table JsString (List JsString)

namespace SnapshotChildren

/-- The entries of a directory. -/
def siblings (children : SnapshotChildren) (parent : JsString) : List JsString :=
  (children.get parent).getD []

def add (children : SnapshotChildren) (parent segment : JsString) : SnapshotChildren :=
  children.set parent
    (if segment ∈ children.siblings parent then children.siblings parent
      else children.siblings parent ++ [segment])

/-- Add the segments of a path below a directory. -/
def addSegments : SnapshotChildren → JsString → List JsString → SnapshotChildren
  | children, _, [] => children
  | children, parent, segment :: rest =>
      addSegments (children.add parent segment) (Segments.child slash parent segment) rest

/-- Add a path, with the paths that were declared before. -/
def declare (declared : SnapshotChildren × List JsString) (path : JsString) :
    Except JsString (SnapshotChildren × List JsString) := do
  assertSafeSnapshotPath path
  if path ∈ declared.2 then .error (units "Duplicate snapshot path: " ++ path)
  else .ok (addSegments declared.1 [] (path.splitOn slash), path :: declared.2)

end SnapshotChildren

namespace SnapshotHost

variable (host : SnapshotHost) (children : SnapshotChildren)

/-- Name one entry of a directory, whose siblings are given, and what is below it. The first
part of the state are the keys that are used. -/
def nameEntry
    (below : JsString → JsString → Table JsString JsString → Except JsString (Table JsString JsString))
    (siblings : List JsString) (parent mappedParent : JsString)
    (before : List JsString × Table JsString JsString) (segment : JsString) :
    Except JsString (List JsString × Table JsString JsString) :=
  let portable := host.portableName siblings segment
  if host.portableKey portable ∈ before.1 then
    .error (units "Snapshot name mapping produced a collision.")
  else
    let originalPath := Segments.child slash parent segment
    let mappedPath := Segments.child slash mappedParent portable
    (below originalPath mappedPath (before.2.set originalPath mappedPath)).map fun mapped =>
      (host.portableKey portable :: before.1, mapped)

/-- Name the entries of a directory and what is below them; the fuel bounds the depth. -/
def visit : Nat → JsString → JsString → Table JsString JsString →
    Except JsString (Table JsString JsString)
  | 0, _, _, _ => .error []
  | fuel + 1, parent, mappedParent, mapped =>
      let siblings := (children.siblings parent).insertionSort (· ≤ ·)
      (siblings.foldlM (host.nameEntry (visit fuel) siblings parent mappedParent) ([], mapped)).map
        Prod.snd

/-- The depth of a tree of paths. -/
def depth (paths : List JsString) : Nat :=
  (paths.map fun path => (path.splitOn slash).length).foldr max 0

/-- The names of the paths and of the paths above them. -/
def portableSnapshotPaths (paths : List JsString) : Except JsString (Table JsString JsString) := do
  let declared ← paths.foldlM SnapshotChildren.declare (Table.empty, [])
  host.visit declared.1 (depth paths + 1) [] [] Table.empty

end SnapshotHost

end Kb1Daemon
