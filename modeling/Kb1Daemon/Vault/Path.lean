import Kb1Daemon.Manager.Paths

/-! # Valid vault paths

A vault path is relative, without empty, dot and reserved segments and without
backslashes; nothing else is excluded, so control characters, line breaks and the
characters that Git gives a meaning are part of valid paths.
-/

namespace Kb1Daemon

open JsString

inductive VaultPathKind where
  | file
  | folder
  | artifact
  deriving DecidableEq, Repr

def internalVaultPathSegments : List JsString :=
  [units ".git", units ".gitattributes", units ".gitignore", units ".gitmodules", units ".kb1"]

def maxPathLength : Nat := 1024
def maxSegmentLength : Nat := 255

/-- The dot of file names. -/
def dot : CodeUnit := 46

/-- The backslash. -/
def backslash : CodeUnit := 92

def isInternalSegment (segment : JsString) : Bool := segment ∈ internalVaultPathSegments

/-- A segment that no check refuses. -/
def validSegment (segment : JsString) : Bool :=
  !segment.isEmpty && segment != [dot] && segment != [dot, dot] &&
    segment.length ≤ maxSegmentLength && !isInternalSegment segment

/-- A file name is a nonempty name, a dot and a nonempty extension. -/
def validFilename (filename : JsString) : Bool :=
  match filename.idxOf? dot with
  | none => false
  | some place => place ≠ 0 && place + 1 ≠ filename.length

/-- The path passes every check for its kind; on a host with POSIX paths. -/
def validateVaultPath (input : JsString) (kind : VaultPathKind) : Bool :=
  !input.isEmpty && input.length ≤ maxPathLength && !input.contains backslash &&
    input.head? ≠ some slash && input.getLast? ≠ some slash &&
    (input.splitOn slash).all validSegment &&
    (kind ≠ .file || validFilename ((input.splitOn slash).getLastD []))

/-- `path.posix.dirname`, on a relative path. -/
def dirname (path : JsString) : JsString :=
  if slash ∈ path then ((path.reverse.dropWhile (· ≠ slash)).drop 1).reverse else [dot]

/-- What is left of a path below a parent. -/
def relativeDescendantPath (parent child : JsString) : Option JsString :=
  if child = parent then some []
  else if isUnder parent child then some (child.drop (parent.length + 1))
  else none

theorem validateVaultPath_ne_nil {input : JsString} {kind : VaultPathKind}
    (valid : validateVaultPath input kind = true) : input ≠ [] := by
  rintro rfl
  exact Bool.false_ne_true valid

example : validateVaultPath (units ":a*/b[c]\n.md") .file = true := by decide +kernel

end Kb1Daemon
