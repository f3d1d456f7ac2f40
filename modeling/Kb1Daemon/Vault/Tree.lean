import Kb1Daemon.Vault.Containment
import Kb1Daemon.Vault.Disk
import Kb1Daemon.Vault.MetadataView

/-! # The tree that a vault reads

A tree of directories and regular files, and what the calls that only look give on it. The rows
that are shown of a directory are those of its entries with names that are not internal
(`VaultTree.mem_visible`, `VaultTree.exists_visible`), each once (`VaultTree.pairwise_visible`).
-/

namespace Kb1Daemon

open JsString

/-- Directories and regular files, one at each path, whose names are names as they are on disk. -/
structure VaultTree where
  disk : VaultDisk
  unique : disk.table.Unique
  plain : ∀ row ∈ disk.table.entries, ∀ name ∈ row.1, PlainSegment name ∧ slash ∉ name
  known : ∀ row ∈ disk.table.entries, onDisk row.1 = row.1

theorem direntAt_eq_some_iff {path : Place} {row : Place × Posix.Entry FileContent}
    {dirent : Dirent} :
    VaultDisk.direntAt path row = some dirent ↔
      row.1 = path ++ [dirent.name.text] ∧ dirent.kind = (VaultDisk.entryStat row.2).kind := by
  unfold VaultDisk.direntAt
  constructor
  · intro found
    cases last : row.1.getLast? with
    | none => rw [last] at found; cases found
    | some text =>
        rw [last] at found
        dsimp only at found
        split_ifs at found with plain
        cases found
        obtain ⟨front, whole⟩ := List.getLast?_eq_some_iff.mp last
        refine ⟨?_, rfl⟩
        change row.1 = path ++ [text]
        rw [← plain.2.2.2.2, whole, List.dropLast_concat]
  · rcases row with ⟨place, entry⟩
    rcases dirent with ⟨⟨text, plain, named⟩, kind⟩
    rintro ⟨rfl, same⟩
    dsimp only at same ⊢
    subst same
    rw [List.getLast?_concat]
    dsimp only
    rw [dif_pos ⟨plain, named.1, named.2.1, named.2.2, List.dropLast_concat⟩]

namespace VaultTree

variable (tree : VaultTree)

/-- The program ends so on the tree, where every call is performed, and changes nothing. -/
def Reads {Value : Type} (program : VaultProgram Value) (outcome : Except VaultFailure Value) :
    Prop :=
  program.Gives (FsCall.perform fun _ => false) ⟨tree.disk, false⟩ outcome

/-- What a program ends with on the tree. -/
def outcome {Value : Type} (program : VaultProgram Value) : Except VaultFailure Value :=
  (program.run (FsCall.perform fun _ => false) ⟨tree.disk, false⟩).1

/-- What a directory lists. -/
def dirents (path : Place) : List Dirent :=
  tree.disk.table.entries.filterMap (VaultDisk.direntAt path)

variable {tree}

/-- What is read is the outcome. -/
theorem Reads.outcome_eq {Value : Type} {program : VaultProgram Value}
    {outcome : Except VaultFailure Value} (reads : tree.Reads program outcome) :
    tree.outcome program = outcome := congrArg Prod.fst reads

theorem get_eq_some_iff {path : Place} {entry : Posix.Entry FileContent} :
    tree.disk.get path = some entry ↔ (path, entry) ∈ tree.disk.table.entries :=
  ⟨Table.holds_of_get, tree.unique.get_eq⟩

/-- A path where there is something is as it is on disk. -/
theorem onDisk_of_get {path : Place} {entry : Posix.Entry FileContent}
    (found : tree.disk.get path = some entry) : onDisk path = path :=
  tree.known _ (get_eq_some_iff.mp found)

theorem reads_attempt {Value : Type} {request : FsCall (Except FsCode Value)} {value : Value}
    (answered : FsCall.perform (fun _ => false) request ⟨tree.disk, false⟩ =
      (.ok value, ⟨tree.disk, false⟩)) : tree.Reads (attempt request) (.ok value) :=
  .call answered (.done value)

theorem perform_stat {path : Place} {entry : Posix.Entry FileContent}
    (found : tree.disk.get path = some entry) :
    FsCall.perform (fun _ => false) (.stat path) ⟨tree.disk, false⟩ =
      (.ok (VaultDisk.entryStat entry), ⟨tree.disk, false⟩) := by
  simp only [FsCall.perform, onDisk_of_get found, VaultDisk.stat, found, carryOut, id]

/-- A directory is read. -/
theorem reads_readdir {path : Place} (directory : tree.disk.isDirectoryAt path = true) :
    tree.Reads (attempt (.readdir path)) (.ok (tree.dirents path)) := by
  obtain ⟨mode, modified, found⟩ := Posix.Disk.isDirectoryAt_iff.mp directory
  refine reads_attempt ?_
  simp only [FsCall.perform, onDisk_of_get found, VaultDisk.readdir, found, carryOut, id]
  rfl

/-- What is there is seen. -/
theorem reads_statOrNull {path : Place} {entry : Posix.Entry FileContent}
    (found : tree.disk.get path = some entry) :
    tree.Reads (statOrNull path) (.ok (some (VaultDisk.entryStat entry))) :=
  .call (perform_stat found) (.done _)

/-- The content of a file is read. -/
theorem reads_readFile {path : Place} {content : FileContent} {mode : Nat} {modified : Int}
    (found : tree.disk.get path = some (.file content mode modified)) :
    tree.Reads (attempt (.readFile path)) (.ok content) := by
  refine reads_attempt ?_
  simp only [FsCall.perform, onDisk_of_get found, VaultDisk.readFile, found, carryOut, id]

section Classified

variable {Value : Type} {classify : VaultFailure → Option VaultError}
  {program : VaultProgram (VaultResult Value)} {failure : VaultFailure}

/-- A result is read as it is. -/
theorem reads_classified {result : VaultResult Value} (reads : tree.Reads program (.ok result)) :
    tree.Reads (classified classify program) (.ok result) := reads.handle

theorem reads_classified_some {error : VaultError} (reads : tree.Reads program (.error failure))
    (known : classify failure = some error) :
    tree.Reads (classified classify program) (.ok (.error error)) := by
  refine reads.handle_error ?_
  rw [known]
  exact .done _

theorem reads_classified_none (reads : tree.Reads program (.error failure))
    (unknown : classify failure = none) :
    tree.Reads (classified classify program) (.error failure) := by
  refine reads.handle_error ?_
  rw [unknown]
  exact .thrown _

end Classified

/-- What a directory lists are the entries with one name more. -/
theorem mem_dirents {path : Place} {dirent : Dirent} :
    dirent ∈ tree.dirents path ↔ ∃ entry,
      tree.disk.get (path ++ [dirent.name.text]) = some entry ∧
        dirent.kind = (VaultDisk.entryStat entry).kind := by
  unfold dirents
  rw [List.mem_filterMap]
  constructor
  · rintro ⟨⟨place, entry⟩, listed, found⟩
    obtain ⟨located, kind⟩ := direntAt_eq_some_iff.mp found
    exact ⟨entry, by rw [← located]; exact get_eq_some_iff.mpr listed, kind⟩
  · rintro ⟨entry, found, kind⟩
    exact ⟨_, get_eq_some_iff.mp found, direntAt_eq_some_iff.mpr ⟨rfl, kind⟩⟩

theorem pairwise_dirents (path : Place) :
    (tree.dirents path).Pairwise fun first second => first.name.text ≠ second.name.text := by
  have distinct : tree.disk.table.entries.Pairwise fun first second => first.1 ≠ second.1 :=
    List.pairwise_map.mp tree.unique
  refine List.pairwise_filterMap.mpr (distinct.imp fun {first second} different => ?_)
  intro dirent found other listed same
  apply different
  rw [(direntAt_eq_some_iff.mp found).1, (direntAt_eq_some_iff.mp listed).1, same]

end VaultTree

/-- The names of a directory below the root; the empty path is the root. -/
def innerNames (relDir : JsString) : Place := if relDir = [] then [] else namesOf relDir

/-- The path of an entry of a directory. -/
theorem namesOf_entry {relDir : JsString} (walked : relDir = [] ∨ Walked relDir)
    (name : EntryName) :
    namesOf (if relDir = [] then name.text else posixJoin [relDir, name.text]) =
      innerNames relDir ++ [name.text] := by
  have own : namesOf name.text = [name.text] := List.splitOn_eq_singleton name.plain
  unfold innerNames
  split_ifs with top
  · exact own
  · have inner := walked.resolve_left top
    unfold namesOf at own ⊢
    rw [splitOn_posixJoin (List.cons_ne_nil _ _), List.flatMap_cons, List.flatMap_singleton, own]
    intro part member
    rcases List.mem_cons.mp member with rfl | last
    · exact inner.plain
    · rw [List.mem_singleton.mp last, own]
      intro segment only
      rw [List.mem_singleton.mp only]
      exact name.named

theorem Walked.innerNames {rel : JsString} (walked : Walked rel) :
    innerNames rel = namesOf rel := by
  refine if_neg ?_
  rintro rfl
  exact (walked.plain [] (by rw [List.splitOn_nil]; exact List.mem_cons_self)).1 rfl

theorem innerNames_external {relDir : JsString} (walked : relDir = [] ∨ Walked relDir) :
    ∀ name ∈ innerNames relDir, isInternalSegment name = false := by
  rcases walked with rfl | walked
  · exact fun _ member => absurd member List.not_mem_nil
  · rw [walked.innerNames]
    exact walked.external

namespace VaultContext

variable (ctx : VaultContext)

/-- The place of a directory of the vault. -/
def placeOf (relDir : JsString) : Place := ctx.place ++ innerNames relDir

variable {ctx}

theorem vaultPath_of_walked (proper : ctx.place ≠ []) {rel : JsString} (walked : Walked rel) :
    ctx.vaultPath rel = .done (ctx.placeOf rel) := by
  apply vaultPath_of_resolved
  unfold resolveVaultPath
  rw [resolve_of_plain walked.plain, if_pos (.inr ⟨proper, List.prefix_append _ _⟩), placeOf,
    walked.innerNames]
  rfl

theorem directoryAt_of_walked (proper : ctx.place ≠ []) {relDir : JsString}
    (walked : relDir = [] ∨ Walked relDir) : ctx.directoryAt relDir = .done (ctx.placeOf relDir) := by
  unfold directoryAt
  split_ifs with top
  · rw [placeOf, innerNames, if_pos top, List.append_nil]
  · exact vaultPath_of_walked proper (walked.resolve_left top)

end VaultContext

namespace VaultTree

variable {tree : VaultTree} {ctx : VaultContext} {relDir : JsString}

/-- A row that is shown of a directory is one of its entries. -/
theorem mem_visible (walked : relDir = [] ∨ Walked relDir) {row : Dirent × JsString}
    (shown : row ∈ VaultContext.visible relDir (tree.dirents (ctx.placeOf relDir))) :
    Walked row.2 ∧ namesOf row.2 = innerNames relDir ++ [row.1.name.text] ∧
      isInternalSegment row.1.name.text = false ∧
      ∃ entry, tree.disk.get (ctx.placeOf row.2) = some entry ∧
        row.1.kind = (VaultDisk.entryStat entry).kind := by
  have inner := VaultContext.walked_of_visible walked shown
  obtain ⟨listed, external⟩ := List.mem_filter.mp shown
  obtain ⟨dirent, member, rfl⟩ := List.mem_map.mp listed
  obtain ⟨entry, found, kind⟩ := mem_dirents.mp member
  have names := namesOf_entry walked dirent.name
  refine ⟨inner, names, ?_, entry, ?_, kind⟩
  · apply inner.external
    change dirent.name.text ∈ namesOf _
    rw [names]
    exact List.mem_concat_self
  · rw [VaultContext.placeOf, inner.innerNames, names, ← List.append_assoc]
    exact found

/-- Every entry of a directory is shown whose name is not internal. -/
theorem exists_visible (walked : relDir = [] ∨ Walked relDir) {name : JsString}
    {entry : Posix.Entry FileContent}
    (found : tree.disk.get (ctx.placeOf relDir ++ [name]) = some entry)
    (external : isInternalSegment name = false) :
    ∃ row ∈ VaultContext.visible relDir (tree.dirents (ctx.placeOf relDir)),
      row.1.name.text = name ∧ row.1.kind = (VaultDisk.entryStat entry).kind := by
  obtain ⟨plain, slashless⟩ := tree.plain _ (get_eq_some_iff.mp found) name List.mem_concat_self
  let dirent : Dirent := ⟨⟨name, slashless, plain⟩, (VaultDisk.entryStat entry).kind⟩
  refine ⟨(dirent, if relDir = [] then name else posixJoin [relDir, name]), ?_, rfl, rfl⟩
  refine List.mem_filter.mpr ⟨List.mem_map.mpr ⟨dirent, mem_dirents.mpr ⟨entry, found, rfl⟩, rfl⟩, ?_⟩
  have names := namesOf_entry walked dirent.name
  rw [Bool.not_eq_true', ← external_iff]
  intro segment member
  change segment ∈ namesOf _ at member
  rw [names] at member
  rcases List.mem_append.mp member with inside | last
  · exact innerNames_external walked segment inside
  · rw [List.mem_singleton.mp last]
    exact external

/-- The rows that are shown of a directory have different names. -/
theorem pairwise_visible (relDir : JsString) (path : Place) :
    (VaultContext.visible relDir (tree.dirents path)).Pairwise fun first second =>
      first.1.name.text ≠ second.1.name.text := by
  refine List.Pairwise.filter _ (List.pairwise_map.mpr ?_)
  exact pairwise_dirents path

end VaultTree

end Kb1Daemon
