import Kb1Daemon.Vault.Following

/-! # What a move leaves

A move on a disk where any call may fail, without an effect or after a part of it, and where two
directories may be on different devices. A move that succeeds has brought the tree of the source to
the target, and beside both it has changed nothing but what is the vault's own and the directories
that the target needed. A move that fails has destroyed nothing unless it was to overwrite something
(`moveVaultPath_keeps_content`).
-/

namespace Kb1Daemon

open JsString

/-- What is in a file; a directory has no content. -/
def Posix.Entry.content {Content : Type} : Posix.Entry Content → Option Content
  | .directory .. => none
  | .file content .. => some content

namespace VaultContext

variable {ctx : VaultContext}

/-- What holds of the disk at the end of every run of the program alone, where any call may fail. -/
def Alone {Value : Type} (program : VaultProgram Value) (ends : Value → VaultDisk → Prop)
    (fails : VaultDisk → Prop) (disk : VaultDisk) : Prop :=
  ∀ touched, program.Secure Eq (FsCall.answers false fun _ => false)
    (fun value state => ends value state.disk) (fun _ state => fails state.disk) ⟨disk, touched⟩

namespace Alone

variable {Value Other : Type} {program : VaultProgram Value} {ends : Value → VaultDisk → Prop}
  {fails : VaultDisk → Prop} {disk : VaultDisk}

theorem weaken {weaker : Value → VaultDisk → Prop} {milder : VaultDisk → Prop}
    (alone : Alone program ends fails disk)
    (last : ∀ value now, ends value now → weaker value now)
    (soften : ∀ now, fails now → milder now) : Alone program weaker milder disk :=
  fun touched => (alone touched).weaken (fun value state => last value state.disk)
    fun _ state => soften state.disk

theorem bind (ends : Value → VaultDisk → Prop) {next : Value → VaultProgram Other}
    {goal : Other → VaultDisk → Prop} (first : Alone program ends fails disk)
    (rest : ∀ value now, ends value now → Alone (next value) goal fails now) :
    Alone (program >>= next) goal fails disk :=
  fun touched => (first touched).bind (fun _ => rfl) fun value state held =>
    rest value state.disk held state.touched

theorem done {value : Value} (held : ends value disk) : Alone (.done value) ends fails disk := by
  rintro touched _ rfl
  exact held

theorem thrown {failure : VaultFailure} (held : fails disk) :
    Alone (.thrown failure) ends fails disk := by
  rintro touched _ rfl
  exact held

theorem handle (raised : VaultDisk → Prop) {handler : VaultFailure → VaultProgram Value}
    (first : Alone program ends raised disk)
    (caught : ∀ failure now, raised now → Alone (handler failure) ends fails now) :
    Alone (program.handle handler) ends fails disk :=
  fun touched => (first touched).handle (fun _ => rfl) fun failure state held =>
    caught failure state.disk held state.touched

/-- A call whose failure is thrown. -/
theorem attempt {call : FsCall (Except FsCode Value)}
    (performed : VaultDisk → Except FsCode (Value × VaultDisk)) (touches : Bool → Bool)
    (is : ∀ state answer after, call.answers false (fun _ => false) state answer after →
      Answered false performed (call.Partly false) touches state answer after)
    (does : ∀ value next, performed disk = .ok (value, next) → ends value next)
    (fail : fails disk) (half : ∀ next, call.Partly false disk next → fails next) :
    Alone (Kb1Daemon.attempt call) ends fails disk := by
  rintro touched _ rfl answer after given
  rcases is _ answer after given with
    ⟨value, next, ok, rfl, rfl⟩ | ⟨_, rfl, refused⟩ | ⟨_, code, next, part, rfl, rfl⟩
  · rintro _ rfl
    exact does value next ok
  · rcases refused with ⟨code, _, rfl⟩ | ⟨code, rfl⟩ <;> rintro _ rfl <;> exact fail
  · rintro _ rfl
    exact half next part

/-- A rename whose failure is thrown. -/
theorem rename {source target : Place} {ends : VaultDisk → Prop}
    (does : ∀ next, Posix.Disk.rename disk (onDisk source) (onDisk target) = some next → ends next)
    (fail : fails disk) :
    Alone (Kb1Daemon.attempt (.rename source target)) (fun _ => ends) fails disk := by
  rintro touched _ rfl answer after given
  rcases given with (⟨value, next, ok, rfl, rfl⟩ | ⟨_, rfl, refused⟩ | ⟨_, _, _, part, _⟩) |
    ⟨_, rfl, rfl⟩
  · rintro _ rfl
    exact does next (VaultDisk.rename_eq_ok ok)
  · rcases refused with ⟨code, _, rfl⟩ | ⟨code, rfl⟩ <;> rintro _ rfl <;> exact fail
  · exact part.elim
  · rintro _ rfl
    exact fail

theorem request {call : FsCall Value} (is : ∀ state answer after,
      call.answers false (fun _ => false) state answer after → after = state)
    (held : ∀ value, ends value disk) : Alone (Kb1Daemon.request call) ends fails disk := by
  rintro touched _ rfl answer after given
  rw [is _ answer after given]
  rintro _ rfl
  exact held answer

theorem statOrNull {path : Place} {ends : Option FileStat → VaultDisk → Prop}
    (there : ends ((disk.get (onDisk path)).map VaultDisk.entryStat) disk) (fail : fails disk) :
    Alone (Kb1Daemon.statOrNull path) ends fails disk := by
  rintro touched _ rfl answer after given
  rcases given with ⟨value, next, ok, rfl, rfl⟩ | ⟨_, rfl, refused⟩ | ⟨_, _, _, part, _⟩
  rotate_right
  · exact part.elim
  · obtain ⟨rfl, entry, found, rfl⟩ := VaultDisk.stat_eq_ok ok
    rintro _ rfl
    dsimp only at found
    rw [found] at there
    exact there
  · rcases refused with ⟨code, absent, rfl⟩ | ⟨code, rfl⟩
    · have none : disk.get (onDisk path) = none := by
        unfold VaultDisk.stat at absent
        dsimp only at absent
        cases found : disk.get (onDisk path) with
        | none => rfl
        | some entry =>
            rw [found] at absent
            cases absent
      rw [none] at there
      cases code with
      | enoent =>
          rintro _ rfl
          exact there
      | _ =>
          rintro _ rfl
          exact fail
    · rintro _ rfl
      exact fail

theorem pathExists {path : Place} {ends : Bool → VaultDisk → Prop}
    (there : ends (disk.get (onDisk path)).isSome disk) (fail : fails disk) :
    Alone (Kb1Daemon.pathExists path) ends fails disk := by
  refine bind (fun stat now => ends stat.isSome now) (statOrNull ?_ fail) ?_
  · rw [Option.isSome_map]
    exact there
  · exact fun stat now held => done held

theorem vaultPath {relPath : JsString} {ends : Place → VaultDisk → Prop}
    (held : ∀ place, resolveVaultPath ctx.cwd ctx.root relPath = .ok place → ends place disk)
    (fail : fails disk) : Alone (ctx.vaultPath relPath) ends fails disk := by
  unfold VaultContext.vaultPath
  cases resolved : resolveVaultPath ctx.cwd ctx.root relPath with
  | ok place => exact done (held place resolved)
  | error failure => exact thrown fail

theorem readFolderMetadataMap {ends : VaultResult MetadataObject → VaultDisk → Prop}
    (held : ∀ result, ends result disk) (fail : fails disk) :
    Alone ctx.readFolderMetadataMap ends fails disk := by
  refine bind (fun _ now => now = disk) (vaultPath (fun _ _ => rfl) fail) ?_
  rintro place _ rfl touched _ rfl answer after given
  rcases given with ⟨value, next, ok, rfl, rfl⟩ | ⟨_, rfl, refused⟩ | ⟨_, _, _, part, _⟩
  rotate_right
  · exact part.elim
  · obtain ⟨rfl, _⟩ := VaultDisk.readFile_eq_ok ok
    rintro _ rfl
    exact held _
  · rcases refused with ⟨code, _, rfl⟩ | ⟨code, rfl⟩
    · cases code with
      | enoent =>
          rintro _ rfl
          exact held _
      | _ =>
          rintro _ rfl
          exact fail
    · rintro _ rfl
      exact fail

end Alone

section Own

/-- Nothing but what is the vault's own is changed. -/
def OnlyOwn (ctx : VaultContext) (before after : VaultDisk) : Prop :=
  ∀ path, ¬ ctx.place ++ [metadataDirectory] <+: path → after.get path = before.get path

variable {before now : VaultDisk}

theorem OnlyOwn.refl (disk : VaultDisk) : OnlyOwn ctx disk disk := fun _ _ => rfl

theorem not_own_place : ¬ ctx.place ++ [metadataDirectory] <+: ctx.place := by
  intro inner
  have length := inner.length_le
  rw [List.length_append, List.length_singleton] at length
  omega

theorem OnlyOwn.rooted (kept : OnlyOwn ctx before now)
    (rooted : before.isDirectoryAt ctx.place = true) : now.isDirectoryAt ctx.place = true := by
  rw [Posix.Disk.isDirectoryAt, kept ctx.place not_own_place]
  exact rooted

theorem own_below (rest : Place) :
    ctx.place ++ [metadataDirectory] <+: ctx.place ++ metadataDirectory :: rest := by
  rw [List.prefix_append_right_inj]
  exact List.prefix_append [metadataDirectory] rest

theorem own_onDisk (rest : Place) :
    ctx.place ++ [metadataDirectory] <+: onDisk (ctx.place ++ metadataDirectory :: rest) := by
  rw [onDisk_own]
  exact own_below _

/-- Above the vault's own there are directories. -/
theorem present_above_own (rooted : now.isDirectoryAt ctx.place = true) {path other : Place}
    (own : ctx.place ++ [metadataDirectory] <+: path)
    (outside : ¬ ctx.place ++ [metadataDirectory] <+: other) (inner : other <+: path) :
    now.get other ≠ none := by
  intro absent
  have above : other <+: ctx.place := by
    rcases List.prefix_or_prefix_of_prefix inner own with lower | higher
    · rcases List.prefix_concat_iff.mp lower with rfl | above
      · exact absurd (List.prefix_refl _) outside
      · exact above
    · exact absurd higher outside
  obtain ⟨mode, modified, found⟩ := Posix.Disk.isDirectoryAt_iff.mp rooted
  by_cases same : other = ctx.place
  · rw [same, found] at absent
    cases absent
  · have directory := Posix.Disk.isDirectoryAt_above (Option.isSome_of_mem found)
      (Posix.mem_above.mpr ⟨above, same⟩)
    rw [Posix.Disk.isDirectoryAt, absent] at directory
    cases directory

/-- A directory of the vault's own is made. -/
theorem alone_mkdir (rooted : before.isDirectoryAt ctx.place = true)
    (kept : OnlyOwn ctx before now) (rest : Place) :
    Alone (attempt (.mkdir (ctx.place ++ metadataDirectory :: rest)))
      (fun _ => OnlyOwn ctx before) (OnlyOwn ctx before) now := by
  have present {path : Place} (outside : ¬ ctx.place ++ [metadataDirectory] <+: path)
      (inner : path <+: onDisk (ctx.place ++ metadataDirectory :: rest)) : now.get path ≠ none :=
    present_above_own (kept.rooted rooted) (own_onDisk rest) outside inner
  refine Alone.attempt (fun disk => VaultDisk.mkdir disk (onDisk _)) id (fun _ _ _ given => given) ?_
    kept fun next part path outside => ?_
  · intro _ next done path outside
    rw [Posix.Disk.get_makeAll (VaultDisk.mkdir_eq_ok done), if_neg]
    · exact kept path outside
    · exact fun both => present outside both.1 both.2
  · rcases part path with same | ⟨inner, absent, _⟩
    · rw [same]
      exact kept path outside
    · exact absurd absent (present outside inner)

/-- A file of the vault's own is written. -/
theorem OnlyOwn.putFile (kept : OnlyOwn ctx before now) {path : Place} {content : FileContent}
    (own : ctx.place ++ [metadataDirectory] <+: path) {value : Unit} {next : VaultDisk}
    (done : VaultDisk.putFile now path content = .ok (value, next)) : OnlyOwn ctx before next := by
  intro other outside
  rw [Posix.Disk.get_write (VaultDisk.putFile_eq_ok done), if_neg]
  · exact kept other outside
  · rintro rfl
    exact outside own

/-- A file of the vault's own is written in part. -/
theorem OnlyOwn.writtenPartly (kept : OnlyOwn ctx before now) {path : Place}
    (own : ctx.place ++ [metadataDirectory] <+: path) {next : VaultDisk}
    (part : VaultDisk.WrittenPartly now path next) : OnlyOwn ctx before next := by
  intro other outside
  rw [part.2.2 other]
  · exact kept other outside
  · rintro rfl
    exact outside own

/-- The audit is the vault's own. -/
theorem alone_writeAuditEntry (rooted : before.isDirectoryAt ctx.place = true)
    (kept : OnlyOwn ctx before now) (operation : AuditOperation) (entityKind : NodeKind)
    (path : JsString) (fromPath toPath : Option JsString) (summary : JsString) :
    Alone (ctx.writeAuditEntry operation entityKind path fromPath toPath summary)
      (fun _ => OnlyOwn ctx before) (OnlyOwn ctx before) now := by
  unfold writeAuditEntry
  refine Alone.bind _ (Alone.request (fun _ _ _ given => given) fun _ => kept) fun id now kept => ?_
  refine Alone.bind _ (Alone.request (fun _ _ _ given => given) fun _ => kept) fun ts now kept => ?_
  refine Alone.bind _ (alone_mkdir rooted kept [units "audit"]) fun _ now kept => ?_
  refine Alone.bind (fun _ => OnlyOwn ctx before) ?_ fun _ now kept => Alone.done kept
  have own := @own_onDisk ctx [units "audit", units "changes.jsonl"]
  refine Alone.attempt (fun disk => VaultDisk.putFile disk (onDisk _)
      (VaultDisk.appended (disk.get (onDisk _)) _)) _
    (fun _ _ _ given => given) (fun _ next done => ?_) kept fun next part => ?_
  · rw [List.append_assoc] at done
    exact kept.putFile own done
  · change VaultDisk.WrittenPartly now (onDisk _) next at part
    rw [List.append_assoc] at part
    exact kept.writtenPartly own part

/-- The metadata is the vault's own. -/
theorem alone_writeFolderMetadataMap (rooted : before.isDirectoryAt ctx.place = true)
    (kept : OnlyOwn ctx before now) (metadata : FolderMetadataMap) :
    Alone (ctx.writeFolderMetadataMap metadata) (fun _ => OnlyOwn ctx before)
      (OnlyOwn ctx before) now := by
  have directory : ctx.foldersPlace.dropLast = ctx.place ++ [metadataDirectory] := by
    rw [foldersPlace, List.dropLast_append_of_ne_nil (List.cons_ne_nil _ _)]
    rfl
  unfold writeFolderMetadataMap
  rcases @vaultPath_folders ctx with located | ⟨failure, refused⟩
  · rw [located, Program.done_bind, directory]
    refine Alone.bind _ (alone_mkdir rooted kept []) fun _ now kept => ?_
    refine Alone.bind _ (Alone.request (fun _ _ _ given => given) fun _ => kept) fun uuid now kept => ?_
    have own : ctx.place ++ [metadataDirectory] <+: ctx.temporaryPlace uuid := by
      rw [temporaryPlace_eq]
      exact own_below _
    refine Alone.handle (OnlyOwn ctx before) ?_ fun failure now kept => ?_
    · refine Alone.bind (fun _ => OnlyOwn ctx before)
        (Alone.attempt (fun disk => VaultDisk.putFile disk (ctx.temporaryPlace uuid) _) id
          (fun _ _ _ given => given) (fun _ next done => kept.putFile own done) kept
          fun next part => kept.writtenPartly own part) fun _ now kept => ?_
      refine Alone.rename (fun next done path outside => ?_) kept
      have apart : ¬ onDisk ctx.foldersPlace <+: path := fun inner =>
        outside ((own_onDisk [units "folders.yml"]).trans inner)
      have elsewhere : ¬ onDisk (ctx.place ++ [metadataDirectory] ++
          [temporaryName ctx.pid uuid]) <+: path := fun inner => outside (own.trans inner)
      rw [Posix.Disk.get_rename done, if_neg apart, if_neg elsewhere]
      exact kept path outside
    · refine Alone.bind (fun _ => OnlyOwn ctx before)
        (Alone.attempt (fun disk => VaultDisk.rm disk (ctx.temporaryPlace uuid) false true)
          (fun _ => true) (fun _ _ _ given => given)
          (fun _ next done path outside => ?_) kept fun _ part => absurd part.2.1 Bool.false_ne_true)
        fun _ now kept => Alone.thrown kept
      rcases VaultDisk.rm_eq_ok done with ⟨rfl, _⟩ | ⟨rfl, _⟩
      · exact kept path outside
      · rw [Posix.Disk.get_without, if_neg fun inner => outside (own.trans inner)]
        exact kept path outside
  · rw [refused]
    exact Alone.thrown kept

end Own

/-- The tree at a path is as it was. -/
def KeepsTree (before : VaultDisk) (path : Place) (after : VaultDisk) : Prop :=
  ∀ rest, after.get (path ++ rest) = before.get (path ++ rest)

/-- The folders and the contents of the files at the source were at the target then. -/
def HasTree (before : VaultDisk) (source : Place) (after : VaultDisk) (target : Place) : Prop :=
  ∀ rest, (after.get (target ++ rest)).map Posix.Entry.content =
    (before.get (source ++ rest)).map Posix.Entry.content

/-- What is at the target was there at the source, with another content of a file maybe. -/
def HasPart (before : VaultDisk) (source : Place) (after : VaultDisk) (target : Place) : Prop :=
  ∀ rest entry, after.get (target ++ rest) = some entry →
    ∃ original, before.get (source ++ rest) = some original ∧
      entry.isDirectory = original.isDirectory

/-- Nothing is at or below the path. -/
def Bare (path : Place) (disk : VaultDisk) : Prop := ∀ rest, disk.get (path ++ rest) = none

/-- Beside the ends of a move and what is the vault's own, there are only new directories above the
target. -/
def Beside (ctx : VaultContext) (ends : MoveEnds) (before after : VaultDisk) : Prop :=
  ∀ path, ¬ ends.fromAbs <+: path → ¬ ends.toAbs <+: path →
    ¬ ctx.place ++ [metadataDirectory] <+: path →
      after.get path = before.get path ∨
        before.get path = none ∧ after.isDirectoryAt path = true ∧ path <+: ends.toAbs

/-- The tree of the source is at the target and no longer at the source. -/
structure Moved (ctx : VaultContext) (ends : MoveEnds) (before after : VaultDisk) : Prop where
  arrived : HasTree before ends.fromAbs after ends.toAbs
  left : Bare ends.fromAbs after
  beside : Beside ctx ends before after

/-- No content is destroyed: both ends are as they were; or there was nothing at the target, and the
tree of the source is there, or a part of it while the source is as it was. -/
def Unharmed (ends : MoveEnds) (before after : VaultDisk) : Prop :=
  (KeepsTree before ends.fromAbs after ∧ KeepsTree before ends.toAbs after) ∨
    (before.get ends.toAbs = none ∧ (HasTree before ends.fromAbs after ends.toAbs ∨
      KeepsTree before ends.fromAbs after ∧ HasPart before ends.fromAbs after ends.toAbs))

/-- The ends as they are on disk. -/
def MoveEnds.onDisk (ends : MoveEnds) : MoveEnds :=
  { ends with fromAbs := Kb1Daemon.onDisk ends.fromAbs, toAbs := Kb1Daemon.onDisk ends.toAbs }

/-- What a failure leaves: nothing is destroyed unless something was to be overwritten, and the tree
of the source is whole unless what was to be overwritten was the source or above it. -/
structure Kept (ends : MoveEnds) (overwrite : Bool) (before after : VaultDisk) : Prop where
  unharmed : (overwrite = true → before.get ends.toAbs = none) → Unharmed ends before after
  source : ¬ ends.toAbs <+: ends.fromAbs →
    KeepsTree before ends.fromAbs after ∨ HasTree before ends.fromAbs after ends.toAbs

/-- The ends of a move that passed its checks on a disk. -/
structure Sited (ctx : VaultContext) (folder : Bool) (ends : MoveEnds) (disk : VaultDisk) : Prop where
  source : ∃ entry, disk.get ends.fromAbs = some entry ∧ entry.isDirectory = folder
  apart : folder = true → ¬ ends.fromAbs <+: ends.toAbs
  fromInside : ctx.Inside ends.fromAbs
  toInside : ctx.Inside ends.toAbs

section Move

variable {folder overwrite : Bool} {ends : MoveEnds} {before now : VaultDisk}

theorem Unharmed.refl : Unharmed ends before before := .inl ⟨fun _ => rfl, fun _ => rfl⟩

/-- Where nothing is overwritten there is nothing at the target. -/
theorem nothing_at (free : overwrite = false → before.get ends.toAbs = none)
    (absent : overwrite = true → before.get ends.toAbs = none) : before.get ends.toAbs = none := by
  cases overwrite with
  | true => exact absent rfl
  | false => exact free rfl

theorem Kept.refl : Kept ends overwrite before before :=
  ⟨fun _ => .refl, fun _ => .inl fun _ => rfl⟩

theorem bare_of_absent {path : Place} (absent : now.get path = none) : Bare path now := by
  intro rest
  by_cases same : rest = []
  · rw [same, List.append_nil]
    exact absent
  · refine Posix.Disk.get_below_eq_none ?_
      (Posix.mem_above.mpr ⟨List.prefix_append _ _, fun alike => same ?_⟩)
    · rw [Posix.Disk.isDirectoryAt, absent]
      exact Bool.false_ne_true
    · exact List.append_right_eq_self.mp alike.symm

namespace Sited

/-- No path inside is the vault's own. -/
theorem not_own {path : Place} (inside : ctx.Inside path) (rest : Place) :
    ¬ ctx.place ++ [metadataDirectory] <+: path ++ rest := by
  obtain ⟨names, some, rfl, external⟩ := inside
  rw [List.append_assoc, List.prefix_append_right_inj]
  obtain ⟨first, others, rfl⟩ := List.exists_cons_of_ne_nil some
  rw [List.cons_append, List.cons_prefix_cons]
  rintro ⟨rfl, _⟩
  have internal : isInternalSegment metadataDirectory = true := by decide +kernel
  rw [external metadataDirectory List.mem_cons_self] at internal
  cases internal

theorem ne_nil {path : Place} (inside : ctx.Inside path) : path ≠ [] := by
  obtain ⟨names, some, rfl, _⟩ := inside
  exact List.append_ne_nil_of_right_ne_nil _ some

/-- The root of the vault is a directory. -/
theorem rooted (sited : Sited ctx folder ends before) : before.isDirectoryAt ctx.place = true := by
  obtain ⟨entry, found, _⟩ := sited.source
  obtain ⟨names, some, same, _⟩ := sited.fromInside
  refine Posix.Disk.isDirectoryAt_above (Option.isSome_of_mem found)
    (Posix.mem_above.mpr ⟨same ▸ List.prefix_append _ _, fun alike => some ?_⟩)
  exact List.append_right_eq_self.mp (same.symm.trans alike.symm)

end Sited

/-- Both ends are as they were, and the target is not below the source. -/
structure Opened (ctx : VaultContext) (ends : MoveEnds) (before now : VaultDisk) : Prop where
  source : KeepsTree before ends.fromAbs now
  target : KeepsTree before ends.toAbs now
  beside : Beside ctx ends before now
  level : ends.fromAbs <+: ends.toAbs → ends.fromAbs = ends.toAbs

/-- Nothing is at the target; the source is as it was unless it was at or below the target. -/
structure Vacated (ctx : VaultContext) (ends : MoveEnds) (before now : VaultDisk) : Prop where
  source : ¬ ends.toAbs <+: ends.fromAbs → KeepsTree before ends.fromAbs now
  target : Bare ends.toAbs now
  beside : Beside ctx ends before now

/-- The directories above the target are made. -/
theorem Sited.opened (sited : Sited ctx folder ends before) {mode : Nat} {time : Int}
    (made : before.makeAll ends.toAbs.dropLast mode time = some now) :
    Opened ctx ends before now := by
  have outside : ¬ ends.fromAbs <+: ends.toAbs.dropLast := by
    intro inner
    obtain ⟨entry, found, kind⟩ := sited.source
    have directory := Posix.Disk.isDirectoryAt_makeAll made (.inr inner)
    rw [Posix.Disk.isDirectoryAt, Posix.Disk.get_makeAll made, found,
      if_neg fun both => Option.some_ne_none _ both.2, Option.any_some, kind] at directory
    exact sited.apart directory (inner.trans (List.dropLast_prefix _))
  constructor
  case source =>
    intro rest
    rw [Posix.Disk.get_makeAll made, if_neg]
    exact fun both => outside ((List.prefix_append _ rest).trans both.1)
  case target =>
    intro rest
    rw [Posix.Disk.get_makeAll made, if_neg]
    rintro ⟨inner, _⟩
    have length := ((List.prefix_append _ rest).trans inner).length_le
    have some := List.length_pos_iff.mpr (Sited.ne_nil sited.toInside)
    rw [List.length_dropLast] at length
    omega
  case beside =>
    intro path _ _ _
    rw [Posix.Disk.isDirectoryAt, Posix.Disk.get_makeAll made]
    by_cases fresh : path <+: ends.toAbs.dropLast ∧ before.get path = none
    · rw [if_pos fresh]
      exact .inr ⟨fresh.2, rfl, fresh.1.trans (List.dropLast_prefix _)⟩
    · rw [if_neg fresh]
      exact .inl rfl
  case level =>
    intro inner
    by_contra apart
    have some := Sited.ne_nil sited.toInside
    rw [← List.dropLast_append_getLast some, List.prefix_concat_iff,
      List.dropLast_append_getLast some] at inner
    exact inner.elim apart outside

/-- Some of the directories above the target are made. -/
theorem Sited.madePartly (sited : Sited ctx folder ends before)
    (part : VaultDisk.MadePartly before ends.toAbs.dropLast now) :
    Kept ends overwrite before now := by
  obtain ⟨entry, found, kind⟩ := sited.source
  have source : KeepsTree before ends.fromAbs now := by
    intro rest
    refine (part _).resolve_right ?_
    rintro ⟨inner, absent, directory⟩
    have there : now.get ends.fromAbs = some entry :=
      found ▸ (part _).resolve_right fun both => Option.some_ne_none _ (found.symm.trans both.2.1)
    have own : now.isDirectoryAt ends.fromAbs = true := by
      by_cases top : rest = []
      · rwa [top, List.append_nil] at directory
      · exact Posix.Disk.isDirectoryAt_above (Option.isSome_of_any directory)
          (Posix.mem_above.mpr ⟨List.prefix_append _ _, fun same =>
            top (List.append_right_eq_self.mp same.symm)⟩)
    rw [Posix.Disk.isDirectoryAt, there, Option.any_some, kind] at own
    exact sited.apart own ((List.prefix_append _ rest).trans (inner.trans (List.dropLast_prefix _)))
  have target : KeepsTree before ends.toAbs now := by
    intro rest
    refine (part _).resolve_right ?_
    rintro ⟨inner, _⟩
    have length := ((List.prefix_append _ rest).trans inner).length_le
    have some := List.length_pos_iff.mpr (Sited.ne_nil sited.toInside)
    rw [List.length_dropLast] at length
    omega
  exact ⟨fun _ => .inl ⟨source, target⟩, fun _ => .inl source⟩

theorem Opened.kept (opened : Opened ctx ends before now) : Kept ends overwrite before now :=
  ⟨fun _ => .inl ⟨opened.source, opened.target⟩, fun _ => .inl opened.source⟩

/-- Nothing was at the target. -/
theorem Opened.vacated (opened : Opened ctx ends before now)
    (absent : now.get ends.toAbs = none) : Vacated ctx ends before now :=
  ⟨fun _ => opened.source, bare_of_absent absent, opened.beside⟩

/-- What is at a path is not below what lies apart from it. -/
theorem not_below {path other : Place} (lower : ¬ other <+: path)
    (level : path <+: other → path = other) (rest : Place) : ¬ other <+: path ++ rest := by
  intro inner
  rcases List.prefix_or_prefix_of_prefix inner (List.prefix_append path rest) with first | second
  · exact lower first
  · exact lower (level second ▸ List.prefix_refl _)

/-- What was at the target is removed. -/
theorem Opened.without (opened : Opened ctx ends before now) :
    Vacated ctx ends before (now.without ends.toAbs) := by
  constructor
  case source =>
    intro lower rest
    rw [Posix.Disk.get_without, if_neg (not_below lower opened.level rest)]
    exact opened.source rest
  case target =>
    intro rest
    rw [Posix.Disk.get_without, if_pos (List.prefix_append _ _)]
  case beside =>
    intro path first second third
    rw [Posix.Disk.isDirectoryAt, Posix.Disk.get_without, if_neg second]
    exact opened.beside path first second third

/-- Some of what was at the target is removed. -/
theorem Opened.removedPartly (opened : Opened ctx ends before now) {next : VaultDisk}
    (part : VaultDisk.RemovedPartly now ends.toAbs next) : Kept ends true before next := by
  refine ⟨fun absent => .inl ?_, fun lower => .inl fun rest => ?_⟩
  · have bare := bare_of_absent (absent rfl)
    have kept {path : Place} (same : now.get path = before.get path) :
        next.get path = before.get path := by
      rcases part path with still | ⟨⟨below, rfl⟩, gone⟩
      · exact still.trans same
      · exact gone.trans (bare below).symm
    exact ⟨fun rest => kept (opened.source rest), fun rest => kept (opened.target rest)⟩
  · rcases part (ends.fromAbs ++ rest) with still | ⟨inner, _⟩
    · exact still.trans (opened.source rest)
    · exact absurd inner (not_below lower opened.level rest)

/-- The source is not at or below a target where there is nothing. -/
theorem Sited.lower (sited : Sited ctx folder ends before)
    (nothing : before.get ends.toAbs = none) : ¬ ends.toAbs <+: ends.fromAbs := by
  rintro ⟨rest, same⟩
  obtain ⟨entry, found, _⟩ := sited.source
  rw [← same, bare_of_absent nothing rest] at found
  cases found

/-- A failure after the target is vacated. -/
theorem Vacated.kept (sited : Sited ctx folder ends before)
    (vacated : Vacated ctx ends before now)
    (free : overwrite = false → before.get ends.toAbs = none) : Kept ends overwrite before now := by
  refine ⟨fun absent => ?_, fun lower => .inl (vacated.source lower)⟩
  have nothing := nothing_at free absent
  refine .inl ⟨vacated.source (sited.lower nothing), fun rest => ?_⟩
  rw [vacated.target rest, bare_of_absent nothing rest]

/-- A failure of which a part of the tree of the source is at the target. -/
theorem Sited.keptPart (sited : Sited ctx folder ends before)
    (free : overwrite = false → before.get ends.toAbs = none)
    (parts : ¬ ends.toAbs <+: ends.fromAbs →
      KeepsTree before ends.fromAbs now ∧ HasPart before ends.fromAbs now ends.toAbs) :
    Kept ends overwrite before now := by
  refine ⟨fun absent => ?_, fun lower => .inl (parts lower).1⟩
  have nothing := nothing_at free absent
  exact .inr ⟨nothing, .inr (parts (sited.lower nothing))⟩

/-- Some of a folder is copied. -/
theorem Vacated.copiedPartly (sited : Sited ctx folder ends before)
    (vacated : Vacated ctx ends before now)
    (free : overwrite = false → before.get ends.toAbs = none) {next : VaultDisk}
    (part : VaultDisk.CopiedPartly now ends.fromAbs ends.toAbs next) :
    Kept ends overwrite before next := by
  refine sited.keptPart free fun lower => ⟨fun rest => ?_, fun rest entry found => ?_⟩
  · rcases part.2 (ends.fromAbs ++ rest) with still | ⟨_, below, _, same, _⟩
    · exact still.trans (vacated.source lower rest)
    · exact absurd (same ▸ List.prefix_append ends.toAbs below)
        (not_below lower (fun inner => absurd inner part.1) rest)
  · rcases part.2 (ends.toAbs ++ rest) with still | ⟨_, below, original, same, present, kind⟩
    · rw [still, vacated.target rest] at found
      cases found
    · obtain rfl := List.append_cancel_left same
      rw [found, Option.all_some, decide_eq_true_eq] at kind
      exact ⟨original, (vacated.source lower rest).symm.trans present, kind⟩

/-- A file is copied in part. -/
theorem Vacated.writtenPartly (sited : Sited ctx false ends before)
    (vacated : Vacated ctx ends before now)
    (free : overwrite = false → before.get ends.toAbs = none) {next : VaultDisk}
    (part : VaultDisk.WrittenPartly now ends.toAbs next) : Kept ends overwrite before next := by
  obtain ⟨_, plain, others⟩ := part
  obtain ⟨original, found, kind⟩ := sited.source
  refine sited.keptPart free fun lower => ?_
  have source := vacated.source lower
  have differ : ends.fromAbs ≠ ends.toAbs := fun same => lower (same ▸ List.prefix_refl _)
  have file : ¬ next.isDirectoryAt ends.fromAbs = true := by
    have there := source []
    rw [List.append_nil, found] at there
    rw [Posix.Disk.isDirectoryAt, others _ differ, there, Option.any_some, kind]
    exact Bool.false_ne_true
  constructor
  · intro rest
    by_cases own : ends.fromAbs ++ rest = ends.toAbs
    · have below := Posix.Disk.get_below_eq_none file
        (Posix.mem_above.mpr ⟨own ▸ List.prefix_append _ rest, differ⟩)
      rw [← source rest, own, below, ← List.append_nil ends.toAbs, vacated.target []]
    · exact (others _ own).trans (source rest)
  · intro rest entry present
    by_cases top : rest = []
    · subst top
      rw [List.append_nil] at present ⊢
      rw [Posix.Disk.isDirectoryAt, present, Option.any_some] at plain
      exact ⟨original, found, plain.trans kind.symm⟩
    · rw [others _ fun same => top (List.append_right_eq_self.mp same), vacated.target rest] at present
      cases present

/-- What is left of the source is not at or below the vacated target. -/
theorem Vacated.lower (vacated : Vacated ctx ends before now)
    (present : (now.get ends.fromAbs).isSome = true) : ¬ ends.toAbs <+: ends.fromAbs := by
  rintro ⟨rest, same⟩
  rw [← same, vacated.target rest] at present
  cases present

/-- The source is renamed. -/
theorem Vacated.rename {next : VaultDisk} (vacated : Vacated ctx ends before now)
    (done : Posix.Disk.rename now ends.fromAbs ends.toAbs = some next) :
    Moved ctx ends before next := by
  obtain ⟨apart, _, present, _⟩ := Posix.Disk.rename_isSome done
  have lower := vacated.lower present
  constructor
  case arrived =>
    intro rest
    rw [Posix.Disk.get_rename done, if_pos (List.prefix_append _ _), List.drop_left,
      vacated.source lower rest]
  case left =>
    intro rest
    rw [Posix.Disk.get_rename done, if_neg (not_below lower (fun inner => absurd inner apart) rest),
      if_pos (List.prefix_append _ _)]
  case beside =>
    intro path first second third
    rw [Posix.Disk.isDirectoryAt, Posix.Disk.get_rename done, if_neg second, if_neg first]
    exact vacated.beside path first second third

/-- The tree of the source is at both ends. -/
structure Doubled (ctx : VaultContext) (ends : MoveEnds) (before now : VaultDisk) : Prop where
  source : KeepsTree before ends.fromAbs now
  arrived : HasTree before ends.fromAbs now ends.toAbs
  beside : Beside ctx ends before now
  apart : ¬ ends.fromAbs <+: ends.toAbs
  lower : ¬ ends.toAbs <+: ends.fromAbs

/-- A folder is copied. -/
theorem Vacated.copy {next : VaultDisk} (vacated : Vacated ctx ends before now)
    (done : now.copy ends.fromAbs ends.toAbs = some next) : Doubled ctx ends before next := by
  obtain ⟨apart, _, present, _⟩ := Posix.Disk.copy_isSome done
  have lower := vacated.lower present
  constructor
  case source =>
    intro rest
    rw [Posix.Disk.get_copy done, if_neg (not_below lower (fun inner => absurd inner apart) rest)]
    exact vacated.source lower rest
  case arrived =>
    intro rest
    rw [Posix.Disk.get_copy done, if_pos (List.prefix_append _ _), List.drop_left,
      vacated.target rest, Option.or_none, vacated.source lower rest]
  case beside =>
    intro path first second third
    rw [Posix.Disk.isDirectoryAt, Posix.Disk.get_copy done, if_neg second]
    exact vacated.beside path first second third
  case apart => exact apart
  case lower => exact lower

/-- A file is copied. -/
theorem Vacated.copyFile {next : VaultDisk} {value : Unit} (vacated : Vacated ctx ends before now)
    (done : VaultDisk.copyFile now ends.fromAbs ends.toAbs = .ok (value, next)) :
    Doubled ctx ends before next := by
  unfold VaultDisk.copyFile at done
  split at done
  rotate_left
  · cases done
  rename_i content _ read
  obtain ⟨rfl, mode, modified, found⟩ := VaultDisk.readFile_eq_ok read
  have written := VaultDisk.putFile_eq_ok done
  have lower := vacated.lower (Option.isSome_of_mem found)
  have source := vacated.source lower
  have get := fun other => Posix.Disk.get_write written other
  have file : ∀ disk : VaultDisk, disk.get ends.fromAbs = some (.file content mode modified) →
      ¬ disk.isDirectoryAt ends.fromAbs = true := by
    intro disk held
    rw [Posix.Disk.isDirectoryAt, held]
    exact Bool.false_ne_true
  have differ : ends.fromAbs ≠ ends.toAbs := fun same => lower (same ▸ List.prefix_refl _)
  have apart : ¬ ends.fromAbs <+: ends.toAbs := by
    intro inner
    have there : (next.get ends.toAbs).isSome = true := by
      rw [get, if_pos rfl]
      rfl
    refine file next ?_ (Posix.Disk.isDirectoryAt_above there (Posix.mem_above.mpr ⟨inner, differ⟩))
    rw [get, if_neg differ]
    exact found
  constructor
  case source =>
    intro rest
    have other : ends.fromAbs ++ rest ≠ ends.toAbs := fun same =>
      apart (same ▸ List.prefix_append _ _)
    rw [get, if_neg other]
    exact source rest
  case arrived =>
    intro rest
    by_cases top : rest = []
    · rw [top, List.append_nil, List.append_nil, get, if_pos rfl, ← List.append_nil ends.fromAbs,
        ← source [], List.append_nil, found]
      rfl
    · have below : ends.toAbs ++ rest ≠ ends.toAbs := fun same =>
        top (List.append_right_eq_self.mp same)
      rw [get, if_neg below, vacated.target rest, ← source rest,
        Posix.Disk.get_below_eq_none (file _ found)
          (Posix.mem_above.mpr ⟨List.prefix_append _ _, fun same =>
            top (List.append_right_eq_self.mp same.symm)⟩)]
  case beside =>
    intro path first second third
    have other : path ≠ ends.toAbs := fun same => second (same ▸ List.prefix_refl _)
    rw [Posix.Disk.isDirectoryAt, get, if_neg other]
    exact vacated.beside path first second third
  case apart => exact apart
  case lower => exact lower

/-- A failure after which the tree of the source is at the target. -/
theorem HasTree.kept (arrived : HasTree before ends.fromAbs now ends.toAbs)
    (free : overwrite = false → before.get ends.toAbs = none) : Kept ends overwrite before now :=
  ⟨fun absent => .inr ⟨nothing_at free absent, .inl arrived⟩, fun _ => .inr arrived⟩

/-- Some of the source of a copy is removed. -/
theorem Doubled.removedPartly (copied : Doubled ctx ends before now)
    (free : overwrite = false → before.get ends.toAbs = none) {next : VaultDisk}
    (part : VaultDisk.RemovedPartly now ends.fromAbs next) : Kept ends overwrite before next := by
  refine HasTree.kept (fun rest => ?_) free
  rcases part (ends.toAbs ++ rest) with still | ⟨inner, _⟩
  · rw [still]
    exact copied.arrived rest
  · exact absurd inner (not_below copied.apart (fun inner => absurd inner copied.lower) rest)

/-- The source of a copy is removed. -/
theorem Doubled.without (copied : Doubled ctx ends before now) :
    Moved ctx ends before (now.without ends.fromAbs) := by
  constructor
  case arrived =>
    intro rest
    rw [Posix.Disk.get_without, if_neg (not_below copied.apart (fun inner =>
      absurd inner copied.lower) rest)]
    exact copied.arrived rest
  case left =>
    intro rest
    rw [Posix.Disk.get_without, if_pos (List.prefix_append _ _)]
  case beside =>
    intro path first second third
    rw [Posix.Disk.isDirectoryAt, Posix.Disk.get_without, if_neg first]
    exact copied.beside path first second third

/-- What is the vault's own is not of a move. -/
theorem Moved.onlyOwn (sited : Sited ctx folder ends before) (moved : Moved ctx ends before now)
    {next : VaultDisk} (only : OnlyOwn ctx now next) : Moved ctx ends before next := by
  have source := fun rest => only _ (Sited.not_own sited.fromInside rest)
  have target := fun rest => only _ (Sited.not_own sited.toInside rest)
  constructor
  case arrived =>
    intro rest
    rw [target rest]
    exact moved.arrived rest
  case left =>
    intro rest
    rw [source rest]
    exact moved.left rest
  case beside =>
    intro path first second third
    rw [Posix.Disk.isDirectoryAt, only path third]
    exact moved.beside path first second third

theorem Moved.rooted (sited : Sited ctx folder ends before) (moved : Moved ctx ends before now) :
    now.isDirectoryAt ctx.place = true := by
  obtain ⟨entry, found, _⟩ := sited.source
  obtain ⟨names, some, same, _⟩ := sited.toInside
  have arrived := moved.arrived []
  rw [List.append_nil, List.append_nil, found] at arrived
  obtain ⟨there, present, _⟩ := Option.map_eq_some_iff.mp arrived
  refine Posix.Disk.isDirectoryAt_above (Option.isSome_of_mem present)
    (Posix.mem_above.mpr ⟨same ▸ List.prefix_append _ _, fun alike => some ?_⟩)
  exact List.append_right_eq_self.mp (same.symm.trans alike.symm)

/-- What is at the target is removed only if it may be overwritten. -/
theorem alone_clearTarget (opened : Opened ctx ends.onDisk before now)
    (free : overwrite = false → now.get ends.onDisk.toAbs = none) :
    Alone (clearTarget ends overwrite) (fun _ => Vacated ctx ends.onDisk before)
      (Kept ends.onDisk overwrite before) now := by
  unfold clearTarget
  cases overwrite with
  | false => exact Alone.done (opened.vacated (free rfl))
  | true =>
      refine Alone.bind (fun occupied disk => disk = now ∧
        occupied = (now.get ends.onDisk.toAbs).isSome) (Alone.pathExists ⟨rfl, rfl⟩ opened.kept) ?_
      rintro occupied _ ⟨rfl, same⟩
      cases occupied with
      | false => exact Alone.done (opened.vacated (Option.isSome_eq_false_iff.mp same.symm |>
          Option.isNone_iff_eq_none.mp))
      | true =>
          refine Alone.attempt (fun disk => VaultDisk.rm disk ends.onDisk.toAbs true false)
            (fun _ => true) (fun _ _ _ given => given) (fun _ next done => ?_) opened.kept
            fun next part => opened.removedPartly part.2.2
          rcases VaultDisk.rm_eq_ok done with ⟨rfl, absent⟩ | ⟨rfl, _⟩
          · exact opened.vacated absent
          · exact opened.without

/-- The source is copied. -/
theorem alone_copy (sited : Sited ctx folder ends.onDisk before)
    (vacated : Vacated ctx ends.onDisk before now)
    (free : overwrite = false → before.get ends.onDisk.toAbs = none) :
    Alone (attempt (if folder then .cp ends.fromAbs ends.toAbs
        else .copyFile ends.fromAbs ends.toAbs))
      (fun _ => Doubled ctx ends.onDisk before) (Kept ends.onDisk overwrite before) now := by
  have kept : Kept ends.onDisk overwrite before now := vacated.kept sited free
  cases folder with
  | true =>
      exact Alone.attempt
        (fun disk => VaultDisk.cp disk ends.onDisk.fromAbs ends.onDisk.toAbs) id
        (fun _ _ _ given => given) (fun _ next done => vacated.copy (VaultDisk.cp_eq_ok done)) kept
        fun next part => vacated.copiedPartly sited free part
  | false =>
      exact Alone.attempt
        (fun disk => VaultDisk.copyFile disk ends.onDisk.fromAbs ends.onDisk.toAbs) id
        (fun _ _ _ given => given) (fun _ next done => vacated.copyFile done) kept
        fun next part => vacated.writtenPartly sited free part

/-- The source of a copy is removed. -/
theorem alone_removeSource (sited : Sited ctx folder ends.onDisk before)
    (copied : Doubled ctx ends.onDisk before now)
    (free : overwrite = false → before.get ends.onDisk.toAbs = none) :
    Alone (attempt (.rm ends.fromAbs true false)) (fun _ => Moved ctx ends.onDisk before)
      (Kept ends.onDisk overwrite before) now := by
  refine Alone.attempt (fun disk => VaultDisk.rm disk ends.onDisk.fromAbs true false)
    (fun _ => true) (fun _ _ _ given => given) (fun _ next done => ?_) (copied.arrived.kept free)
    fun next part => copied.removedPartly free part.2.2
  rcases VaultDisk.rm_eq_ok done with ⟨rfl, absent⟩ | ⟨rfl, _⟩
  · obtain ⟨entry, found, _⟩ := sited.source
    have there := copied.source []
    rw [List.append_nil, absent, found] at there
    cases there
  · exact copied.without

/-- The source is renamed, or copied and removed. -/
theorem alone_renameOrCopy (sited : Sited ctx folder ends.onDisk before)
    (vacated : Vacated ctx ends.onDisk before now)
    (free : overwrite = false → before.get ends.onDisk.toAbs = none) :
    Alone (renameOrCopy ends folder) (fun _ => Moved ctx ends.onDisk before)
      (Kept ends.onDisk overwrite before) now := by
  have kept : Kept ends.onDisk overwrite before now := vacated.kept sited free
  have copies : Alone (do
      attempt (if folder then .cp ends.fromAbs ends.toAbs else .copyFile ends.fromAbs ends.toAbs)
      attempt (.rm ends.fromAbs true false)) (fun _ => Moved ctx ends.onDisk before)
        (Kept ends.onDisk overwrite before) now :=
    Alone.bind _ (alone_copy sited vacated free) fun _ now copied =>
      alone_removeSource sited copied free
  rintro touched _ rfl answer after given
  rcases given with (⟨value, next, ok, rfl, rfl⟩ | ⟨_, rfl, refused⟩ | ⟨_, _, _, part, _⟩) |
    ⟨_, rfl, rfl⟩
  · rintro _ rfl
    exact vacated.rename (VaultDisk.rename_eq_ok ok)
  · rcases refused with ⟨code, _, rfl⟩ | ⟨code, rfl⟩
    · cases code with
      | exdev => exact copies touched
      | _ =>
          rintro _ rfl
          exact kept
    · rintro _ rfl
      exact kept
  · exact part.elim
  · exact copies touched

/-- What a result says of the disk. -/
def Concluded (ctx : VaultContext) (ends : MoveEnds) (overwrite : Bool) (before : VaultDisk)
    (result : VaultResult MoveValue) (after : VaultDisk) : Prop :=
  match result with
  | .ok _ => Moved ctx ends before after
  | .error _ => Kept ends overwrite before after

/-- What is the vault's own may change after the move. -/
theorem Moved.keptOwn (sited : Sited ctx folder ends before) (moved : Moved ctx ends before now)
    (free : overwrite = false → before.get ends.toAbs = none) {next : VaultDisk}
    (only : OnlyOwn ctx now next) : Kept ends overwrite before next :=
  (moved.onlyOwn sited only).arrived.kept free

theorem alone_writeMovedMetadata (sited : Sited ctx folder ends.onDisk before)
    (moved : Moved ctx ends.onDisk before now)
    (free : overwrite = false → before.get ends.onDisk.toAbs = none)
    (metadata : Option FolderMetadataMap) :
    Alone (ctx.writeMovedMetadata ends metadata) (fun _ => Moved ctx ends.onDisk before)
      (Kept ends.onDisk overwrite before) now := by
  cases metadata with
  | none => exact Alone.done moved
  | some metadata =>
      exact (alone_writeFolderMetadataMap (moved.rooted sited) (OnlyOwn.refl now) _).weaken
        (fun _ _ only => moved.onlyOwn sited only) fun _ only => moved.keptOwn sited free only

theorem alone_movePath (sited : Sited ctx folder ends.onDisk before)
    (metadata : Option FolderMetadataMap) :
    Alone (ctx.movePath ends folder overwrite metadata) (Concluded ctx ends.onDisk overwrite before)
      (Kept ends.onDisk overwrite before) before := by
  unfold movePath
  refine Alone.bind (fun occupied disk => before = disk ∧
    occupied = (before.get ends.onDisk.toAbs).isSome) (Alone.pathExists ⟨rfl, rfl⟩ .refl) ?_
  rintro occupied _ ⟨rfl, same⟩
  split
  · exact Alone.done .refl
  rename_i allowed
  have free : overwrite = false → before.get ends.onDisk.toAbs = none := by
    intro kept
    rw [← Option.not_isSome_iff_eq_none, ← same]
    exact fun there => allowed ⟨there, kept ▸ Bool.false_ne_true⟩
  have parent : onDisk ends.toAbs.dropLast = ends.onDisk.toAbs.dropLast := onDisk_dropLast _
  refine Alone.bind (fun _ => Opened ctx ends.onDisk before)
    (Alone.attempt (fun disk => VaultDisk.mkdir disk (onDisk ends.toAbs.dropLast)) id
      (fun _ _ _ given => given) (fun _ next done => sited.opened (parent ▸ VaultDisk.mkdir_eq_ok done))
      .refl fun next part => sited.madePartly (parent ▸ part))
    fun _ now opened => ?_
  have absent : overwrite = false → now.get ends.onDisk.toAbs = none := by
    intro kept
    have target := opened.target []
    rw [List.append_nil] at target
    rw [target, free kept]
  refine Alone.bind _ (alone_clearTarget opened absent) fun _ now vacated => ?_
  refine Alone.bind _ (alone_renameOrCopy sited vacated free) fun _ now moved => ?_
  refine Alone.bind _ (alone_writeMovedMetadata sited moved free metadata) fun _ now moved => ?_
  refine Alone.bind (fun _ => Moved ctx ends.onDisk before) ?_ fun _ now moved => Alone.done moved
  exact (alone_writeAuditEntry (moved.rooted sited) (OnlyOwn.refl now) _ _ _ _ _ _).weaken
    (fun _ _ only => moved.onlyOwn sited only) fun _ only => moved.keptOwn sited free only

/-- The ends of a move of paths, as they are on disk. -/
def moveEnds (ctx : VaultContext) (fromPath toPath : JsString) : MoveEnds :=
  ⟨fromPath, toPath, onDisk (ctx.place ++ namesOf fromPath), onDisk (ctx.place ++ namesOf toPath)⟩

/-- Where a folder's target is at or below it on disk, the paths say so; they need not where a name
has a lone surrogate. -/
def Distinct (folder : Bool) (fromPath toPath : JsString) : Prop :=
  folder = true → onDisk (namesOf fromPath) <+: onDisk (namesOf toPath) →
    namesOf fromPath <+: namesOf toPath

theorem alone_validatedPath {path : JsString} {kind : VaultPathKind} {fails : VaultDisk → Prop}
    (failed : fails before) :
    Alone (validatedPath path kind)
      (fun rel now => before = now ∧ path = rel ∧ validateVaultPath path kind = true) fails before := by
  unfold validatedPath
  cases reason : invalidPathReason path kind with
  | none => exact Alone.done ⟨rfl, rfl, invalidPathReason_eq_none_iff.mp reason⟩
  | some reason => exact Alone.thrown failed

/-- What passes the checks is on the disk. -/
theorem alone_checkMove {fromPath toPath : JsString} (distinct : Distinct folder fromPath toPath)
    {fails : VaultDisk → Prop} (failed : fails before) :
    Alone (ctx.checkMove fromPath toPath folder)
      (fun checked now => before = now ∧ ∀ ends, checked = .ok ends →
        ends.onDisk = ctx.moveEnds fromPath toPath ∧ Sited ctx folder ends.onDisk before) fails
      before := by
  unfold checkMove
  refine Alone.bind _ (alone_validatedPath failed) ?_
  rintro source _ ⟨rfl, rfl, valid⟩
  refine Alone.bind _ (alone_validatedPath failed) ?_
  rintro target _ ⟨rfl, rfl, fits⟩
  split
  · exact Alone.done ⟨rfl, nofun⟩
  rename_i apart
  have walked := walked_of_valid valid
  have leads := walked_of_valid fits
  refine Alone.bind (fun place disk => before = disk ∧ ctx.place ++ namesOf fromPath = place)
    (Alone.vaultPath (fun place resolved => ⟨rfl, (resolveVaultPath_of_plain walked.plain resolved).symm⟩)
      failed) ?_
  rintro _ _ ⟨rfl, rfl⟩
  refine Alone.bind (fun place disk => before = disk ∧ ctx.place ++ namesOf toPath = place)
    (Alone.vaultPath (fun place resolved => ⟨rfl, (resolveVaultPath_of_plain leads.plain resolved).symm⟩)
      failed) ?_
  rintro _ _ ⟨rfl, rfl⟩
  refine Alone.bind (fun stat disk => before = disk ∧
    (before.get (onDisk (ctx.place ++ namesOf fromPath))).map VaultDisk.entryStat = stat)
    (Alone.statOrNull ⟨rfl, rfl⟩ failed) ?_
  rintro _ _ ⟨rfl, rfl⟩
  split
  · exact Alone.done ⟨rfl, nofun⟩
  rename_i kind
  refine Alone.done ⟨rfl, ?_⟩
  rintro _ ⟨⟩
  refine ⟨rfl, ?_, ?_, (inside_of_walked walked).onDisk, (inside_of_walked leads).onDisk⟩
  · rw [not_ne_iff, Option.map_map] at kind
    obtain ⟨entry, found, same⟩ := Option.map_eq_some_iff.mp kind
    refine ⟨entry, found, ?_⟩
    cases entry <;> cases folder <;> first | rfl | cases same
  · intro given inner
    change onDisk (ctx.place ++ namesOf fromPath) <+: onDisk (ctx.place ++ namesOf toPath) at inner
    rw [onDisk_append, onDisk_append, List.prefix_append_right_inj] at inner
    refine apart ⟨given, ?_⟩
    rw [Option.isSome_iff_ne_none]
    exact fun none => relativeDescendantPath_eq_none_iff.mp none (distinct given inner)

theorem alone_moveVaultPath {fromPath toPath : JsString}
    (distinct : Distinct folder fromPath toPath) :
    Alone (ctx.moveVaultPath fromPath toPath folder overwrite)
      (Concluded ctx (ctx.moveEnds fromPath toPath) overwrite before)
      (Kept (ctx.moveEnds fromPath toPath) overwrite before) before := by
  refine Alone.handle (Kept (ctx.moveEnds fromPath toPath) overwrite before) ?_
    fun failure now kept => ?_
  · refine Alone.bind _ (alone_checkMove distinct .refl) ?_
    rintro checked _ ⟨rfl, known⟩
    cases checked with
    | error error => exact Alone.done .refl
    | ok ends =>
        obtain ⟨same, sited⟩ := known ends rfl
        rw [← same]
        cases folder with
        | false => exact alone_movePath sited none
        | true =>
            refine Alone.bind (fun _ now => before = now)
              (Alone.readFolderMetadataMap (fun _ => rfl) .refl) ?_
            rintro read _ rfl
            cases read with
            | error error => exact Alone.done .refl
            | ok metadata => exact alone_movePath sited (some metadata.own)
  · split
    · exact Alone.done kept
    · exact Alone.thrown kept

end Move

/-- **A move destroys no content.** A move that succeeds has brought the tree of the source to the
target, and changed nothing else but what is the vault's own and the directories above the target.
One that fails has left both ends as they were, or has the tree or a part of a copy at the target,
where there was nothing, unless something there was to be overwritten; and even then the tree of the
source is whole at one of the ends, if the target was not at or above it. -/
theorem moveVaultPath_keeps_content {fromPath toPath : JsString} {folder overwrite : Bool}
    (distinct : Distinct folder fromPath toPath) {before after : VaultState}
    {outcome : Except VaultFailure (VaultResult MoveValue)}
    (run : (ctx.moveVaultPath fromPath toPath folder overwrite).Runs
      (FsCall.answers false fun _ => false) before outcome after) :
    (∀ value, outcome = .ok (.ok value) →
        Moved ctx (ctx.moveEnds fromPath toPath) before.disk after.disk) ∧
      ((∀ value, outcome ≠ .ok (.ok value)) →
        Kept (ctx.moveEnds fromPath toPath) overwrite before.disk after.disk) := by
  obtain ⟨ended, failed⟩ := Program.Secure.runs (fun _ => rfl)
    (alone_moveVaultPath distinct before.touched) run
  refine ⟨fun value same => ended _ same, fun fails => ?_⟩
  cases same : outcome with
  | error failure => exact failed failure same
  | ok result =>
      cases result with
      | error error => exact ended _ same
      | ok value => exact absurd same (fails value)

end VaultContext

open VaultContext

namespace MoveSample

/-- A note in a vault. -/
def noteDisk : VaultDisk :=
  ((plainVault.writeVaultFile (units "a.md") (units "one") false).run
    (FsCall.perform fun _ => false) ⟨bareDisk, false⟩).2.disk

/-- The note is moved into a new folder. -/
def carried : Except VaultFailure (VaultResult MoveValue) × VaultState :=
  (plainVault.moveVaultPath (units "a.md") (units "b/c.md") false false).run
    (FsCall.perform fun _ => false) ⟨noteDisk, false⟩

/-- The note is moved over itself. -/
def destroyed : Except VaultFailure (VaultResult MoveValue) × VaultState :=
  (plainVault.moveVaultPath (units "a.md") (units "a.md") false true).run
    (FsCall.perform fun _ => false) ⟨noteDisk, false⟩

theorem runs_performed {Value : Type} (program : VaultProgram Value) (state : VaultState)
    (checked : program.runCheck (FsCall.perform fun _ => false) (FsCall.good false) state = true) :
    program.Runs (FsCall.answers false fun _ => false) state
      (program.run (FsCall.perform fun _ => false) state).1
      (program.run (FsCall.perform fun _ => false) state).2 :=
  Program.runs_run (fun request state => answers_perform _ request state) _ _ checked

end MoveSample

open MoveSample

theorem ok_of_isSome {Value : Type} (outcome : Except VaultFailure (VaultResult Value))
    (done : (outcome.toOption.bind Except.toOption).isSome = true) :
    ∃ value, outcome = .ok (.ok value) := by
  rcases outcome with failure | error | value
  · cases done
  · cases done
  · exact ⟨value, rfl⟩

/-- A note that is moved into a new folder. -/
theorem moveVaultPath_keeps_content_carried :
    Moved plainVault (plainVault.moveEnds (units "a.md") (units "b/c.md")) noteDisk
      carried.2.disk := by
  have run := runs_performed
    (plainVault.moveVaultPath (units "a.md") (units "b/c.md") false false) ⟨noteDisk, false⟩
    (by decide +kernel)
  obtain ⟨value, done⟩ := ok_of_isSome carried.1 (by decide +kernel)
  exact (moveVaultPath_keeps_content (fun folder => absurd folder Bool.false_ne_true) run).1 value done

/-- A move that succeeds writes the audit, and a note that is moved over itself is gone when the move
fails. -/
theorem moveVaultPath_not_confined :
    (∃ value, (plainVault.moveVaultPath (units "a.md") (units "b/c.md") false false).Runs
        (FsCall.answers false fun _ => false) ⟨noteDisk, false⟩ (.ok (.ok value)) carried.2 ∧
      noteDisk.get [units "vault", units ".kb1", units "audit", units "changes.jsonl"] ≠
        carried.2.disk.get [units "vault", units ".kb1", units "audit", units "changes.jsonl"]) ∧
    ∃ failure, (plainVault.moveVaultPath (units "a.md") (units "a.md") false true).Runs
        (FsCall.answers false fun _ => false) ⟨noteDisk, false⟩ (.error failure) destroyed.2 ∧
      noteDisk.get [units "vault", units "a.md"] ≠ none ∧
        destroyed.2.disk.get [units "vault", units "a.md"] = none := by
  constructor
  · have run := runs_performed
      (plainVault.moveVaultPath (units "a.md") (units "b/c.md") false false) ⟨noteDisk, false⟩
      (by decide +kernel)
    obtain ⟨value, done⟩ := ok_of_isSome carried.1 (by decide +kernel)
    change Program.Runs _ _ _ carried.1 carried.2 at run
    rw [done] at run
    refine ⟨value, run, fun same => ?_⟩
    have longer : (noteDisk.get
          [units "vault", units ".kb1", units "audit", units "changes.jsonl"]).map
            (fun entry => (VaultDisk.entryStat entry).size) ≠
        (carried.2.disk.get
          [units "vault", units ".kb1", units "audit", units "changes.jsonl"]).map
            fun entry => (VaultDisk.entryStat entry).size := by decide +kernel
    exact longer (congrArg _ same)
  · have run := runs_performed
      (plainVault.moveVaultPath (units "a.md") (units "a.md") false true) ⟨noteDisk, false⟩
      (by decide +kernel)
    have failed : destroyed.1 = .error (.system .enoent) := by decide +kernel
    change Program.Runs _ _ _ destroyed.1 destroyed.2 at run
    rw [failed] at run
    have there : (noteDisk.get [units "vault", units "a.md"]).isSome = true := by decide +kernel
    have gone : (destroyed.2.disk.get [units "vault", units "a.md"]).isNone = true := by
      decide +kernel
    exact ⟨_, run, Option.isSome_iff_ne_none.mp there, Option.isNone_iff_eq_none.mp gone⟩

end Kb1Daemon
