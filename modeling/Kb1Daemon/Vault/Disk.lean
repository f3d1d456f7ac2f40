import Kb1Daemon.Foundation.PosixTree
import Kb1Daemon.Vault.Operations

/-! # The operations on a disk

What the calls of the operations do to a disk without links whose modes keep nobody out. A call is
performed, or refused for what is there, or fails: without an effect, or after a part of its work
(`FsCall.answers`). On a steady disk a call may fail while the operation at work has taken nothing
away so far, and not after, and no removal of a tree fails after a part of it.
-/

namespace Kb1Daemon

open JsString

abbrev VaultDisk := Posix.Disk JsString FileContent

def directoryMode : Nat := 0o755
def fileMode : Nat := 0o644

namespace VaultDisk

variable (disk : VaultDisk)

/-- The code for a path where there is nothing. -/
def absentCode (path : Place) : FsCode :=
  if (Posix.above path).all fun front => (disk.get front).all Posix.Entry.isDirectory then .enoent
  else .enotdir

def contentSize : FileContent → Nat
  | .bytes stored => stored.length
  | .yaml _ => 0
  | .audit entries => entries.length

def entryStat : Posix.Entry FileContent → FileStat
  | .directory _ modified => ⟨.folder, 0, modified⟩
  | .file content _ modified => ⟨.file, contentSize content, modified⟩

def stat (path : Place) : Except FsCode (FileStat × VaultDisk) :=
  match disk.get path with
  | none => .error (absentCode disk path)
  | some entry => .ok (entryStat entry, disk)

/-- The listed entry of a path in a directory. -/
def direntAt (path : Place) (entry : Place × Posix.Entry FileContent) : Option Dirent :=
  match entry.1.getLast? with
  | none => none
  | some text =>
      if plain : slash ∉ text ∧ text ≠ [] ∧ text ≠ [dot] ∧ text ≠ [dot, dot] ∧
          entry.1.dropLast = path then
        some ⟨⟨text, plain.1, plain.2.1, plain.2.2.1, plain.2.2.2.1⟩, (entryStat entry.2).kind⟩
      else none

def readdir (path : Place) : Except FsCode (List Dirent × VaultDisk) :=
  match disk.get path with
  | none => .error (absentCode disk path)
  | some (.file ..) => .error .enotdir
  | some (.directory ..) => .ok (disk.table.entries.filterMap (direntAt path), disk)

def mkdir (path : Place) : Except FsCode (Unit × VaultDisk) :=
  match disk.makeAll path directoryMode 0 with
  | some next => .ok ((), next)
  | none => .error (if (disk.get path).isSome then .eexist else .enotdir)

def readFile (path : Place) : Except FsCode (FileContent × VaultDisk) :=
  match disk.get path with
  | none => .error (absentCode disk path)
  | some (.directory ..) => .error (.other (units "EISDIR"))
  | some (.file content ..) => .ok (content, disk)

/-- Put a file in a directory. -/
def putFile (path : Place) (content : FileContent) : Except FsCode (Unit × VaultDisk) :=
  match disk.write path content fileMode 0 with
  | some next => .ok ((), next)
  | none => .error (if disk.isDirectoryAt path then .other (units "EISDIR") else absentCode disk path)

/-- The content of a file with a line of the audit after it. -/
def appended (content : Option (Posix.Entry FileContent)) (entry : AuditEntry) : FileContent :=
  match content with
  | some (.file (.audit entries) ..) => .audit (entries ++ [entry])
  | _ => .audit [entry]

def rename (source target : Place) : Except FsCode (Unit × VaultDisk) :=
  match Posix.Disk.rename disk source target with
  | some next => .ok ((), next)
  | none =>
      .error (if (disk.get source).isNone then absentCode disk source
        else if (disk.get target).isNone then absentCode disk target
        else .other (units "ENOTEMPTY"))

def rm (path : Place) (recursive force : Bool) : Except FsCode (Unit × VaultDisk) :=
  match disk.get path with
  | none => if force then .ok ((), disk) else .error (absentCode disk path)
  | some entry =>
      if entry.isDirectory && !recursive then .error (.other (units "ERR_FS_EISDIR"))
      else .ok ((), disk.without path)

def cp (source target : Place) : Except FsCode (Unit × VaultDisk) :=
  match disk.copy source target with
  | some next => .ok ((), next)
  | none =>
      .error (if (disk.get source).isNone then absentCode disk source
        else .other (units "ERR_FS_CP_EINVAL"))

def copyFile (source target : Place) : Except FsCode (Unit × VaultDisk) :=
  match readFile disk source with
  | .ok (content, _) => putFile disk target content
  | .error code => .error code

/-- Some of the directories that a `mkdir` makes are there. -/
def MadePartly (path : Place) (next : VaultDisk) : Prop :=
  ∀ other, next.get other = disk.get other ∨
    (other <+: path ∧ disk.get other = none ∧ next.isDirectoryAt other = true)

/-- Anything or nothing is in the file that is written. -/
def WrittenPartly (path : Place) (next : VaultDisk) : Prop :=
  disk.isDirectoryAt path = false ∧ next.isDirectoryAt path = false ∧
    ∀ other, other ≠ path → next.get other = disk.get other

/-- Some of what an `rm` removes is gone. -/
def RemovedPartly (path : Place) (next : VaultDisk) : Prop :=
  ∀ other, next.get other = disk.get other ∨ (path <+: other ∧ next.get other = none)

/-- Some of what a `cp` copies is there, with anything or nothing in a file of it. -/
def CopiedPartly (source target : Place) (next : VaultDisk) : Prop :=
  ¬ source <+: target ∧ ∀ other, next.get other = disk.get other ∨
    (disk.isDirectoryAt other = false ∧ ∃ rest original, other = target ++ rest ∧
      disk.get (source ++ rest) = some original ∧
        (next.get other).all (fun copied => copied.isDirectory = original.isDirectory) = true)

variable {disk}

/-- A stat tells of what is there and changes nothing. -/
theorem stat_eq_ok {next : VaultDisk} {path : Place} {value : FileStat}
    (done : stat disk path = .ok (value, next)) :
    next = disk ∧ ∃ entry, disk.get path = some entry ∧ value = entryStat entry := by
  unfold stat at done
  cases found : disk.get path with
  | none => rw [found] at done; cases done
  | some entry =>
      rw [found] at done
      cases done
      exact ⟨rfl, entry, rfl, rfl⟩

/-- The stat of a directory succeeds. -/
theorem stat_ne_error {path : Place} (directory : disk.isDirectoryAt path = true)
    (code : FsCode) : stat disk path ≠ .error code := by
  unfold stat
  rw [Posix.Disk.isDirectoryAt] at directory
  cases found : disk.get path with
  | none =>
      rw [found] at directory
      cases directory
  | some entry => rintro ⟨⟩

/-- Listing a directory changes nothing. -/
theorem readdir_eq_ok {next : VaultDisk} {path : Place} {value : List Dirent}
    (done : readdir disk path = .ok (value, next)) : next = disk := by
  unfold readdir at done
  cases found : disk.get path with
  | none => rw [found] at done; cases done
  | some entry =>
      rw [found] at done
      cases entry with
      | file => cases done
      | directory =>
          cases done
          rfl

/-- Reading a file changes nothing. -/
theorem readFile_eq_ok {next : VaultDisk} {path : Place} {value : FileContent}
    (done : readFile disk path = .ok (value, next)) :
    next = disk ∧ ∃ mode modified, disk.get path = some (.file value mode modified) := by
  unfold readFile at done
  cases found : disk.get path with
  | none => rw [found] at done; cases done
  | some entry =>
      rw [found] at done
      cases entry with
      | directory => cases done
      | file content mode modified =>
          cases done
          exact ⟨rfl, mode, modified, rfl⟩

/-- What is missing for a reader is not there. -/
theorem get_of_readFile_enoent {path : Place} (refused : readFile disk path = .error .enoent) :
    disk.get path = none := by
  unfold readFile at refused
  cases found : disk.get path with
  | none => rfl
  | some entry =>
      rw [found] at refused
      cases entry <;> cases refused

/-- Making a directory makes all that are missing. -/
theorem mkdir_eq_ok {next : VaultDisk} {path : Place} {value : Unit}
    (done : mkdir disk path = .ok (value, next)) :
    disk.makeAll path directoryMode 0 = some next := by
  unfold mkdir at done
  cases made : disk.makeAll path directoryMode 0 with
  | none => rw [made] at done; cases done
  | some changed =>
      rw [made] at done
      cases done
      rfl

/-- Writing a file writes it. -/
theorem putFile_eq_ok {next : VaultDisk} {path : Place} {content : FileContent} {value : Unit}
    (done : putFile disk path content = .ok (value, next)) :
    disk.write path content fileMode 0 = some next := by
  unfold putFile at done
  cases made : disk.write path content fileMode 0 with
  | none => rw [made] at done; cases done
  | some changed =>
      rw [made] at done
      cases done
      rfl

/-- A rename is one of the disk. -/
theorem rename_eq_ok {next : VaultDisk} {source target : Place} {value : Unit}
    (done : rename disk source target = .ok (value, next)) :
    Posix.Disk.rename disk source target = some next := by
  unfold rename at done
  cases made : Posix.Disk.rename disk source target with
  | none => rw [made] at done; cases done
  | some changed =>
      rw [made] at done
      cases done
      rfl

/-- A copy is one of the disk. -/
theorem cp_eq_ok {next : VaultDisk} {source target : Place} {value : Unit}
    (done : cp disk source target = .ok (value, next)) : disk.copy source target = some next := by
  unfold cp at done
  cases made : disk.copy source target with
  | none => rw [made] at done; cases done
  | some changed =>
      rw [made] at done
      cases done
      rfl

/-- A copied file is written with the content of its source. -/
theorem copyFile_eq_ok {next : VaultDisk} {source target : Place} {value : Unit}
    (done : copyFile disk source target = .ok (value, next)) :
    ∃ content, putFile disk target content = .ok (value, next) := by
  unfold copyFile at done
  cases read : readFile disk source with
  | error code => rw [read] at done; cases done
  | ok found =>
      rw [read] at done
      exact ⟨found.1, done⟩

/-- A removal takes all of the path, or finds nothing. -/
theorem rm_eq_ok {next : VaultDisk} {path : Place} {recursive force : Bool} {value : Unit}
    (done : rm disk path recursive force = .ok (value, next)) :
    (next = disk ∧ disk.get path = none) ∨
      (next = disk.without path ∧ (disk.isDirectoryAt path = true → recursive = true)) := by
  unfold rm at done
  cases found : disk.get path with
  | none =>
      rw [found] at done
      dsimp only at done
      split_ifs at done
      cases done
      exact .inl ⟨rfl, rfl⟩
  | some entry =>
      rw [found] at done
      dsimp only at done
      split_ifs at done with plain
      cases done
      refine .inr ⟨rfl, fun directory => ?_⟩
      rw [Posix.Disk.isDirectoryAt, found, Option.any_some] at directory
      rw [directory, Bool.true_and, Bool.not_eq_true', Bool.not_eq_false] at plain
      exact plain

end VaultDisk

/-- The disk, and whether the operation at work has changed the tree of the vault or its folder
metadata. -/
structure VaultState where
  disk : VaultDisk
  touched : Bool

/-- The answer to a call that is performed, refused, or fails without an effect or after a part of
it. On a steady disk nothing fails for an operation that has touched the vault. -/
def Answered (steady : Bool) {Value : Type}
    (performed : VaultDisk → Except FsCode (Value × VaultDisk))
    (partly : VaultDisk → VaultDisk → Prop) (touches : Bool → Bool)
    (state : VaultState) (answer : Except FsCode Value) (after : VaultState) : Prop :=
  (∃ value disk, performed state.disk = .ok (value, disk) ∧ answer = .ok value ∧
    after = ⟨disk, touches state.touched⟩) ∨
  ((steady = true → state.touched = false) ∧ after = state ∧
    ((∃ code, performed state.disk = .error code ∧ answer = .error code) ∨
      ∃ code, answer = .error (.other code))) ∨
  ((steady = true → state.touched = false) ∧ ∃ code disk, partly state.disk disk ∧
    answer = .error code ∧ after = ⟨disk, state.touched⟩)

/-- What is left where a call fails after a part of it. Calls that only look or rename have no part,
and on a steady disk neither has a removal. -/
def FsCall.Partly (steady : Bool) {Answer : Type} (call : FsCall Answer) (disk next : VaultDisk) :
    Prop :=
  match call with
  | .mkdir path => VaultDisk.MadePartly disk (onDisk path) next
  | .writeFile path _ => VaultDisk.WrittenPartly disk (onDisk path) next
  | .appendFile path _ => VaultDisk.WrittenPartly disk (onDisk path) next
  | .rm path recursive _ =>
      steady = false ∧ recursive = true ∧ VaultDisk.RemovedPartly disk (onDisk path) next
  | .cp source target => VaultDisk.CopiedPartly disk (onDisk source) (onDisk target) next
  | .copyFile _ target => VaultDisk.WrittenPartly disk (onDisk target) next
  | _ => False

/-- How the disk answers a call, whose paths it gets as they are on disk. Two directories may be on
different devices; a rename to a place that settles the vault ends what an operation has touched. -/
def FsCall.answers (steady : Bool) (settles : Place → Bool) {Answer : Type} (call : FsCall Answer)
    (state : VaultState) (answer : Answer) (after : VaultState) : Prop :=
  match call with
  | .stat path =>
      Answered steady (fun disk => VaultDisk.stat disk (onDisk path))
        (FsCall.Partly steady (.stat path)) id state answer after
  | .readdir path =>
      Answered steady (fun disk => VaultDisk.readdir disk (onDisk path))
        (FsCall.Partly steady (.readdir path)) id state answer after
  | .mkdir path =>
      Answered steady (fun disk => VaultDisk.mkdir disk (onDisk path))
        (FsCall.Partly steady (.mkdir path)) id state answer after
  | .readFile path =>
      Answered steady (fun disk => VaultDisk.readFile disk (onDisk path))
        (FsCall.Partly steady (.readFile path)) id state answer after
  | .writeFile path content =>
      Answered steady (fun disk => VaultDisk.putFile disk (onDisk path) content)
        (FsCall.Partly steady (.writeFile path content)) id state answer after
  | .appendFile path entry =>
      Answered steady (fun disk => VaultDisk.putFile disk (onDisk path)
          (VaultDisk.appended (disk.get (onDisk path)) entry))
        (FsCall.Partly steady (.appendFile path entry)) id state answer after
  | .rename source target =>
      Answered steady (fun disk => VaultDisk.rename disk (onDisk source) (onDisk target))
        (FsCall.Partly steady (.rename source target)) (fun _ => !settles (onDisk target)) state
          answer after ∨
      ((onDisk source).dropLast ≠ (onDisk target).dropLast ∧ after = state ∧
        answer = .error .exdev)
  | .rm path recursive force =>
      Answered steady (fun disk => VaultDisk.rm disk (onDisk path) recursive force)
        (FsCall.Partly steady (.rm path recursive force)) (fun _ => true) state answer after
  | .cp source target =>
      Answered steady (fun disk => VaultDisk.cp disk (onDisk source) (onDisk target))
        (FsCall.Partly steady (.cp source target)) id state answer after
  | .copyFile source target =>
      Answered steady (fun disk => VaultDisk.copyFile disk (onDisk source) (onDisk target))
        (FsCall.Partly steady (.copyFile source target)) id state answer after
  | .randomUUID => after = state
  | .now => after = state

/-- A call performed or refused, with what it leaves. -/
def carryOut {Value : Type} (result : Except FsCode (Value × VaultDisk)) (touches : Bool → Bool)
    (state : VaultState) : Except FsCode Value × VaultState :=
  match result with
  | .ok (value, disk) => (.ok value, ⟨disk, touches state.touched⟩)
  | .error code => (.error code, state)

/-- The name that stands for an id has no slash. -/
theorem slash_notMem_zero : JsString.slash ∉ [48] := by decide +kernel

/-- Perform a call on one device where nothing fails. -/
def FsCall.perform (settles : Place → Bool) {Answer : Type} (call : FsCall Answer)
    (state : VaultState) : Answer × VaultState :=
  match call with
  | .stat path => carryOut (VaultDisk.stat state.disk (onDisk path)) id state
  | .readdir path => carryOut (VaultDisk.readdir state.disk (onDisk path)) id state
  | .mkdir path => carryOut (VaultDisk.mkdir state.disk (onDisk path)) id state
  | .readFile path => carryOut (VaultDisk.readFile state.disk (onDisk path)) id state
  | .writeFile path content =>
      carryOut (VaultDisk.putFile state.disk (onDisk path) content) id state
  | .appendFile path entry =>
      carryOut (VaultDisk.putFile state.disk (onDisk path)
        (VaultDisk.appended (state.disk.get (onDisk path)) entry)) id state
  | .rename source target =>
      carryOut (VaultDisk.rename state.disk (onDisk source) (onDisk target))
        (fun _ => !settles (onDisk target)) state
  | .rm path recursive force =>
      carryOut (VaultDisk.rm state.disk (onDisk path) recursive force) (fun _ => true) state
  | .cp source target =>
      carryOut (VaultDisk.cp state.disk (onDisk source) (onDisk target)) id state
  | .copyFile source target =>
      carryOut (VaultDisk.copyFile state.disk (onDisk source) (onDisk target)) id state
  | .randomUUID => (⟨[48], slash_notMem_zero⟩, state)
  | .now => (⟨[48], slash_notMem_zero⟩, state)

/-- The call is performed. -/
def FsCall.succeeds {Answer : Type} (call : FsCall Answer) (disk : VaultDisk) : Bool :=
  match call with
  | .stat path => (VaultDisk.stat disk (onDisk path)).toBool
  | .readdir path => (VaultDisk.readdir disk (onDisk path)).toBool
  | .mkdir path => (VaultDisk.mkdir disk (onDisk path)).toBool
  | .readFile path => (VaultDisk.readFile disk (onDisk path)).toBool
  | .writeFile path content => (VaultDisk.putFile disk (onDisk path) content).toBool
  | .appendFile path entry =>
      (VaultDisk.putFile disk (onDisk path)
        (VaultDisk.appended (disk.get (onDisk path)) entry)).toBool
  | .rename source target => (VaultDisk.rename disk (onDisk source) (onDisk target)).toBool
  | .rm path recursive force => (VaultDisk.rm disk (onDisk path) recursive force).toBool
  | .cp source target => (VaultDisk.cp disk (onDisk source) (onDisk target)).toBool
  | .copyFile source target => (VaultDisk.copyFile disk (onDisk source) (onDisk target)).toBool
  | .randomUUID => true
  | .now => true

/-- The call is performed, unless nothing is touched or the disk need not be steady. -/
def FsCall.good (steady : Bool) {Answer : Type} (call : FsCall Answer) (state : VaultState) : Bool :=
  !steady || !state.touched || call.succeeds state.disk

/-- What a call does is one of its answers. -/
theorem answered_carryOut {steady : Bool} {Value : Type}
    (performed : VaultDisk → Except FsCode (Value × VaultDisk))
    (partly : VaultDisk → VaultDisk → Prop) (touches : Bool → Bool) {state : VaultState}
    (good : (!steady || !state.touched || (performed state.disk).toBool) = true) :
    Answered steady performed partly touches state
      (carryOut (performed state.disk) touches state).1
      (carryOut (performed state.disk) touches state).2 := by
  unfold carryOut
  cases done : performed state.disk with
  | ok result => exact .inl ⟨result.1, result.2, done, rfl, rfl⟩
  | error code =>
      rw [done] at good
      refine .inr (.inl ⟨?_, rfl, .inl ⟨code, done, rfl⟩⟩)
      rintro rfl
      simpa [Except.toBool] using good

/-- What is performed is an answer. -/
theorem answers_perform {steady : Bool} (settles : Place → Bool) {Answer : Type}
    (call : FsCall Answer) (state : VaultState) (good : call.good steady state = true) :
    call.answers steady settles state (call.perform settles state).1
      (call.perform settles state).2 := by
  cases call with
  | stat path =>
      exact answered_carryOut (fun disk => VaultDisk.stat disk (onDisk path))
        (FsCall.Partly steady (.stat path)) id good
  | readdir path =>
      exact answered_carryOut (fun disk => VaultDisk.readdir disk (onDisk path))
        (FsCall.Partly steady (.readdir path)) id good
  | mkdir path =>
      exact answered_carryOut (fun disk => VaultDisk.mkdir disk (onDisk path))
        (FsCall.Partly steady (.mkdir path)) id good
  | readFile path =>
      exact answered_carryOut (fun disk => VaultDisk.readFile disk (onDisk path))
        (FsCall.Partly steady (.readFile path)) id good
  | writeFile path content =>
      exact answered_carryOut (fun disk => VaultDisk.putFile disk (onDisk path) content)
        (FsCall.Partly steady (.writeFile path content)) id good
  | appendFile path entry =>
      exact answered_carryOut (fun disk => VaultDisk.putFile disk (onDisk path)
          (VaultDisk.appended (disk.get (onDisk path)) entry))
        (FsCall.Partly steady (.appendFile path entry)) id good
  | rename source target =>
      exact .inl (answered_carryOut
        (fun disk => VaultDisk.rename disk (onDisk source) (onDisk target))
        (FsCall.Partly steady (.rename source target)) (fun _ => !settles (onDisk target)) good)
  | rm path recursive force =>
      exact answered_carryOut (fun disk => VaultDisk.rm disk (onDisk path) recursive force)
        (FsCall.Partly steady (.rm path recursive force)) (fun _ => true) good
  | cp source target =>
      exact answered_carryOut (fun disk => VaultDisk.cp disk (onDisk source) (onDisk target))
        (FsCall.Partly steady (.cp source target)) id good
  | copyFile source target =>
      exact answered_carryOut (fun disk => VaultDisk.copyFile disk (onDisk source) (onDisk target))
        (FsCall.Partly steady (.copyFile source target)) id good
  | randomUUID => rfl
  | now => rfl

end Kb1Daemon
