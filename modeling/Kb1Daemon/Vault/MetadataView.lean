import Kb1Daemon.Foundation.PosixTree
import Kb1Daemon.Vault.Metadata

/-! # Folder metadata by names

A map of folder metadata, seen as a function on the names below the root, is changed by the
operations as the tree of folders is: what is at or below a removed folder goes
(`metadataView_remove`), and what is at or below a moved folder moves along and takes the place of
what the target held (`metadataView_move`). What is written is read back
(`parseFolderMetadata_folderMetadataContent`).
-/

namespace Kb1Daemon

open JsString

/-- A path is determined by its names. -/
theorem namesOf_injective {first second : JsString} (same : namesOf first = namesOf second) :
    first = second := by
  have joined := congrArg (Segments.joined slash) same
  unfold namesOf at joined
  rwa [Segments.joined_splitOn, Segments.joined_splitOn] at joined

/-- The names of a path below another one. -/
theorem namesOf_append (front rest : JsString) :
    namesOf (front ++ slash :: rest) = namesOf front ++ namesOf rest := by
  have joined : Segments.joined slash (namesOf front ++ namesOf rest) = front ++ slash :: rest := by
    unfold namesOf
    rw [Segments.joined_append (List.splitOn_ne_nil slash front) (List.splitOn_ne_nil slash rest),
      Segments.joined_splitOn, Segments.joined_splitOn]
  rw [← joined]
  refine List.splitOn_intercalate slash ?_ ?_
  · intro segment member
    rcases List.mem_append.mp member with first | second
    · exact Segments.not_mem_of_mem_splitOn front segment first
    · exact Segments.not_mem_of_mem_splitOn rest segment second
  · exact List.append_ne_nil_of_left_ne_nil (List.splitOn_ne_nil slash front) _

/-- The paths below a path are those whose names go on after its names. -/
theorem namesOf_prefix_iff {front path : JsString} :
    namesOf front <+: namesOf path ↔ path = front ∨ ∃ rest, path = front ++ slash :: rest := by
  constructor
  · rintro ⟨tail, same⟩
    by_cases none : tail = []
    · rw [none, List.append_nil] at same
      exact .inl (namesOf_injective same.symm)
    · refine .inr ⟨Segments.joined slash tail, ?_⟩
      have whole := congrArg (Segments.joined slash) same
      unfold namesOf at whole
      rwa [Segments.joined_append (List.splitOn_ne_nil slash front) none, Segments.joined_splitOn,
        Segments.joined_splitOn, eq_comm] at whole
  · rintro (rfl | ⟨rest, rfl⟩)
    · exact List.prefix_refl _
    · rw [namesOf_append]
      exact List.prefix_append _ _

theorem relativeDescendantPath_eq_none_iff {front path : JsString} :
    relativeDescendantPath front path = none ↔ ¬ namesOf front <+: namesOf path := by
  rw [namesOf_prefix_iff, ← isUnder_iff]
  unfold relativeDescendantPath
  split_ifs with own below
  · simp [own]
  · simp [below]
  · simp [own, below]

/-- The path of plain segments. -/
def PlainPath (path : JsString) : Prop := ∀ segment ∈ namesOf path, PlainSegment segment

/-- A valid path is plain. -/
theorem plainPath_of_valid {path : JsString} {kind : VaultPathKind}
    (valid : validateVaultPath path kind = true) : PlainPath path := by
  obtain ⟨_, _, _, _, _, segments, _⟩ := validateVaultPath_iff.mp valid
  exact fun segment member => plainSegment_of_valid (segments segment member)

/-- A key goes where its names go. -/
theorem movedKey_names {fromPath toPath key : JsString} (target : PlainPath toPath)
    (plain : PlainPath key) :
    (movedKey fromPath toPath key).map namesOf =
      Posix.Disk.renamed (namesOf fromPath) (namesOf toPath) (namesOf key) := by
  unfold Posix.Disk.renamed movedKey
  by_cases inner : namesOf fromPath <+: namesOf key
  · rw [if_pos inner]
    rcases namesOf_prefix_iff.mp inner with rfl | ⟨rest, rfl⟩
    · rw [relativeDescendantPath, if_pos rfl]
      simp
    · have below : relativeDescendantPath fromPath (fromPath ++ slash :: rest) = some rest := by
        rw [relativeDescendantPath, if_neg (by simp), if_pos (isUnder_iff.mpr ⟨rest, rfl⟩)]
        simp
      have restPlain : PlainPath rest := by
        intro segment member
        refine plain segment ?_
        rw [namesOf_append]
        exact List.mem_append_right _ member
      have some : rest ≠ [] := by
        rintro rfl
        exact (restPlain [] (by rw [namesOf, List.splitOn_nil]; exact List.mem_cons_self)).1 rfl
      rw [below, namesOf_append, List.drop_left]
      cases rest with
      | nil => exact absurd rfl some
      | cons unit rest =>
          have joined : namesOf (posixJoin [toPath, unit :: rest]) =
              namesOf toPath ++ namesOf (unit :: rest) := by
            rw [namesOf, splitOn_posixJoin (List.cons_ne_nil _ _)]
            · simp [namesOf]
            · intro part listed
              rcases List.mem_cons.mp listed with rfl | last
              · exact target
              · rw [List.mem_singleton.mp last]
                exact restPlain
          exact congrArg Option.some joined
  · rw [if_neg inner, relativeDescendantPath_eq_none_iff.mpr inner]
    by_cases away : namesOf toPath <+: namesOf key
    · have gone : key = toPath ∨ (relativeDescendantPath toPath key).isSome = true := by
        refine .inr ?_
        rw [Option.isSome_iff_ne_none]
        exact fun none => relativeDescendantPath_eq_none_iff.mp none away
      rw [if_pos away]
      simp only [gone, if_true, Option.map_none]
    · have stays : ¬ (key = toPath ∨ (relativeDescendantPath toPath key).isSome = true) := by
        rw [not_or, Option.not_isSome_iff_eq_none, relativeDescendantPath_eq_none_iff]
        refine ⟨?_, away⟩
        rintro rfl
        exact away (List.prefix_refl _)
      rw [if_neg away]
      simp only [stays, if_false, Option.map_some]

/-- What the code stores: valid paths, each once, and colors in normal form. -/
structure FormedMetadata (map : FolderMetadataMap) : Prop where
  unique : map.Unique
  sound : ∀ key metadata, map.Holds key metadata → validateVaultPath key .folder = true ∧
    key ≠ prototypeName ∧ ∃ color, metadata.color = some color ∧ NormalColor color

/-- The metadata of the folder with these names. -/
def metadataView (map : FolderMetadataMap) (names : Place) : Option FolderMetadata :=
  (map.rekey fun key => some (namesOf key)).get names

theorem metadataView_namesOf (map : FolderMetadataMap) (key : JsString) :
    metadataView map (namesOf key) = map.get key := by
  refine Table.get_rekey_of_only fun other => ?_
  rw [Option.some_inj]
  exact ⟨namesOf_injective, congrArg namesOf⟩

theorem metadataView_eq_some_iff {map : FolderMetadataMap} {names : Place}
    {metadata : FolderMetadata} :
    metadataView map names = some metadata ↔
      ∃ key, names = namesOf key ∧ map.get key = some metadata := by
  constructor
  · intro found
    by_cases known : ∃ key, names = namesOf key
    · obtain ⟨key, rfl⟩ := known
      exact ⟨key, rfl, by rwa [metadataView_namesOf] at found⟩
    · have absent : metadataView map names = none :=
        Table.get_rekey_of_none fun key same => known ⟨key, (Option.some.inj same).symm⟩
      rw [absent] at found
      cases found
  · rintro ⟨key, rfl, found⟩
    rwa [metadataView_namesOf]

/-- The effect of a removal on a tree. -/
def removed {Value : Type} (names : Place) (old : Place → Option Value) (other : Place) :
    Option Value :=
  if names <+: other then none else old other

/-- The effect of a move on a tree. -/
def moved {Value : Type} (source target : Place) (old : Place → Option Value) (other : Place) :
    Option Value :=
  if target <+: other then old (source ++ other.drop target.length)
  else if source <+: other then none
  else old other

/-- The effect of new metadata for a folder. -/
def remarked (names : Place) (input : FolderMetadataInput) (old : Place → Option FolderMetadata)
    (other : Place) : Option FolderMetadata :=
  if other = names then
    (some (applyFolderMetadataInput ((old names).getD ⟨none⟩) input)).filter
      fun next => !isEmptyMetadata next
  else old other

theorem moved_eq_some_iff {Value : Type} {source target other : Place}
    {old : Place → Option Value} {value : Value} :
    moved source target old other = some value ↔
      ∃ names, Posix.Disk.renamed source target names = some other ∧ old names = some value := by
  unfold moved
  by_cases below : target <+: other
  · rw [if_pos below]
    obtain ⟨rest, rfl⟩ := below
    rw [List.drop_left]
    constructor
    · exact fun found => ⟨_, (Posix.Disk.renamed_eq_below rest _).mpr rfl, found⟩
    · rintro ⟨names, leads, found⟩
      rwa [← (Posix.Disk.renamed_eq_below rest names).mp leads]
  · rw [if_neg below]
    by_cases inner : source <+: other
    · rw [if_pos inner]
      constructor
      · rintro ⟨⟩
      · rintro ⟨names, leads, _⟩
        exact absurd inner ((Posix.Disk.renamed_eq_outside below names).mp leads).2
    · rw [if_neg inner]
      constructor
      · exact fun found => ⟨other, (Posix.Disk.renamed_eq_outside below other).mpr ⟨rfl, inner⟩, found⟩
      · rintro ⟨names, leads, found⟩
        rwa [← ((Posix.Disk.renamed_eq_outside below names).mp leads).1]

theorem renamed_injective {source target first second other : Place}
    (left : Posix.Disk.renamed source target first = some other)
    (right : Posix.Disk.renamed source target second = some other) : first = second := by
  by_cases below : target <+: other
  · obtain ⟨rest, rfl⟩ := below
    rw [(Posix.Disk.renamed_eq_below rest first).mp left,
      (Posix.Disk.renamed_eq_below rest second).mp right]
  · rw [((Posix.Disk.renamed_eq_outside below first).mp left).1,
      ((Posix.Disk.renamed_eq_outside below second).mp right).1]

section Maps

variable {map : FolderMetadataMap}

theorem FormedMetadata.of_get (formed : FormedMetadata map) {key : JsString}
    {metadata : FolderMetadata} (found : map.get key = some metadata) :
    validateVaultPath key .folder = true ∧ key ≠ prototypeName ∧
      ∃ color, metadata.color = some color ∧ NormalColor color :=
  formed.sound key metadata (Table.holds_of_get found)

/-- The empty map is formed. -/
theorem formedMetadata_empty : FormedMetadata .empty :=
  ⟨Table.unique_empty, fun _ _ held => absurd held List.not_mem_nil⟩

theorem FormedMetadata.set (formed : FormedMetadata map) {path : JsString}
    (valid : validateVaultPath path .folder = true) (other : path ≠ prototypeName)
    {metadata : FolderMetadata} {color : JsString} (colored : metadata.color = some color)
    (normal : NormalColor color) : FormedMetadata (map.set path metadata) := by
  refine ⟨formed.unique.set _ _, fun key stored held => ?_⟩
  rcases Table.holds_set.mp held with ⟨rfl, rfl⟩ | ⟨_, old⟩
  · exact ⟨valid, other, color, colored, normal⟩
  · exact formed.sound key stored old

theorem FormedMetadata.within {narrow : FolderMetadataMap} (formed : FormedMetadata map)
    (within : narrow.Within map) : FormedMetadata narrow :=
  ⟨within.unique formed.unique, fun key stored held => formed.sound key stored (within.holds held)⟩

/-- The view of a map with one more key. -/
theorem metadataView_set (path : JsString) (metadata : FolderMetadata) (names : Place) :
    metadataView (map.set path metadata) names =
      if names = namesOf path then some metadata else metadataView map names := by
  by_cases known : ∃ key, names = namesOf key
  · obtain ⟨key, rfl⟩ := known
    rw [metadataView_namesOf, metadataView_namesOf, Table.get_set]
    by_cases own : key = path
    · rw [if_pos own, if_pos (congrArg namesOf own)]
    · rw [if_neg own, if_neg fun same => own (namesOf_injective same)]
  · have absent : ∀ map : FolderMetadataMap, metadataView map names = none := fun map =>
      Table.get_rekey_of_none fun key same => known ⟨key, (Option.some.inj same).symm⟩
    rw [absent, absent, if_neg fun same => known ⟨path, same⟩]

/-- The view of a map without a key. -/
theorem metadataView_delete (path : JsString) (names : Place) :
    metadataView (map.delete path) names =
      if names = namesOf path then none else metadataView map names := by
  by_cases known : ∃ key, names = namesOf key
  · obtain ⟨key, rfl⟩ := known
    rw [metadataView_namesOf, metadataView_namesOf, Table.get_delete]
    by_cases own : key = path
    · rw [if_pos own, if_pos (congrArg namesOf own)]
    · rw [if_neg own, if_neg fun same => own (namesOf_injective same)]
  · have absent : ∀ map : FolderMetadataMap, metadataView map names = none := fun map =>
      Table.get_rekey_of_none fun key same => known ⟨key, (Option.some.inj same).symm⟩
    rw [absent, absent, if_neg fun same => known ⟨path, same⟩]

/-- **Edited metadata.** A folder's new metadata is found at the folder, and nothing else
changes. -/
theorem metadataView_setMetadata {object : MetadataObject} {path : JsString}
    (other : path ≠ prototypeName) (input : FolderMetadataInput) :
    metadataView (setMetadata object.own path
        (applyFolderMetadataInput (metadataAt object path) input)) =
      remarked (namesOf path) input (metadataView object.own) := by
  funext names
  unfold remarked setMetadata assignMetadata
  rw [metadataView_namesOf, metadataAt_of_ne other]
  by_cases empty : isEmptyMetadata
      (applyFolderMetadataInput ((object.own.get path).getD ⟨none⟩) input) = true
  · rw [if_pos empty, metadataView_delete, Option.filter_some, empty]
    rfl
  · rw [if_neg empty, if_neg other, metadataView_set, Option.filter_some]
    rw [Bool.not_eq_true] at empty
    rw [empty]
    rfl

/-- **Removed metadata.** What is at or below a removed folder goes. -/
theorem metadataView_remove (path : JsString) :
    metadataView (removeFolderMetadataSubtree map path) = removed (namesOf path) (metadataView map) := by
  funext names
  refine Option.ext fun metadata => ?_
  have keeps (key : JsString) : (decide (key ≠ path) &&
      (relativeDescendantPath path key).isNone) = true ↔ ¬ namesOf path <+: namesOf key := by
    rw [Bool.and_eq_true, decide_eq_true_eq, Option.isNone_iff_eq_none,
      relativeDescendantPath_eq_none_iff, and_iff_right_iff_imp]
    rintro outside rfl
    exact outside (List.prefix_refl _)
  unfold removed
  rw [metadataView_eq_some_iff]
  constructor
  · rintro ⟨key, rfl, found⟩
    unfold removeFolderMetadataSubtree at found
    rw [Table.get_keep] at found
    split_ifs at found with kept
    rw [if_neg ((keeps key).mp kept), metadataView_namesOf]
    exact found
  · intro found
    split_ifs at found with inner
    obtain ⟨key, rfl, stored⟩ := metadataView_eq_some_iff.mp found
    refine ⟨key, rfl, ?_⟩
    unfold removeFolderMetadataSubtree
    rw [Table.get_keep, if_pos ((keeps key).mpr inner)]
    exact stored

/-- The keys that a move takes along stay storable: their new paths are valid, and none is the
name of the prototype. -/
def FitsMove (map : FolderMetadataMap) (fromPath toPath : JsString) : Prop :=
  ∀ key metadata, map.Holds key metadata → ∀ target, movedKey fromPath toPath key = some target →
    validateVaultPath target .folder = true ∧ target ≠ prototypeName

/-- A key moves, unless its new path is the name of the prototype. -/
def storedKey (fromPath toPath key : JsString) : Option JsString :=
  (movedKey fromPath toPath key).filter fun target => target ≠ prototypeName

theorem moveFolderMetadataSubtree_eq (fromPath toPath : JsString) :
    moveFolderMetadataSubtree map fromPath toPath = map.gather (storedKey fromPath toPath) := by
  unfold moveFolderMetadataSubtree Table.gather
  congr 1
  funext next entry
  unfold storedKey assignMetadata
  cases movedKey fromPath toPath entry.1 with
  | none => rfl
  | some target =>
      dsimp only
      rw [Option.filter_some]
      by_cases own : target = prototypeName
      · rw [if_pos own, if_neg (by simp [own])]
      · rw [if_neg own, if_pos (by simp [own])]

theorem storedKey_eq (fits : FitsMove map fromPath toPath) {key : JsString}
    {metadata : FolderMetadata} (held : map.Holds key metadata) :
    storedKey fromPath toPath key = movedKey fromPath toPath key := by
  unfold storedKey
  cases leads : movedKey fromPath toPath key with
  | none => rfl
  | some target =>
      rw [Option.filter_some, if_pos]
      rw [decide_eq_true_eq]
      exact (fits key metadata held target leads).2

variable {fromPath toPath : JsString}

/-- What is stored after a move was stored under a path that leads there. -/
theorem get_move_eq_some_iff (formed : FormedMetadata map) (target : PlainPath toPath)
    (fits : FitsMove map fromPath toPath) {place : JsString} {metadata : FolderMetadata} :
    (moveFolderMetadataSubtree map fromPath toPath).get place = some metadata ↔
      ∃ key, movedKey fromPath toPath key = some place ∧ map.get key = some metadata := by
  rw [moveFolderMetadataSubtree_eq]
  have plain {key : JsString} {stored : FolderMetadata} (held : map.Holds key stored) :
      PlainPath key := plainPath_of_valid (formed.sound key stored held).1
  have apart {key : JsString} {stored : FolderMetadata} (held : map.Holds key stored)
      {other : JsString} {content : FolderMetadata} (also : map.Holds other content)
      (leads : movedKey fromPath toPath key = some place)
      (alike : movedKey fromPath toPath other = some place) : key = other := by
    have first := @movedKey_names fromPath toPath key target (plain held)
    have second := @movedKey_names fromPath toPath other target (plain also)
    rw [leads, Option.map_some] at first
    rw [alike, Option.map_some] at second
    exact namesOf_injective (renamed_injective first.symm second.symm)
  by_cases reached : ∃ key stored, map.Holds key stored ∧ movedKey fromPath toPath key = some place
  · obtain ⟨source, stored, held, leads⟩ := reached
    have only : ∀ entry ∈ map.entries,
        storedKey fromPath toPath entry.1 = some place ↔ entry.1 = source := by
      rintro ⟨key, content⟩ listed
      rw [storedKey_eq fits listed]
      constructor
      · exact fun alike => apart listed held alike leads
      · rintro rfl
        exact leads
    rw [Table.get_gather formed.unique only]
    constructor
    · exact fun found => ⟨source, leads, found⟩
    · rintro ⟨key, alike, found⟩
      rwa [apart held (Table.holds_of_get found) leads alike]
  · have nowhere : ∀ entry ∈ map.entries, storedKey fromPath toPath entry.1 ≠ some place := by
      rintro ⟨key, content⟩ listed
      rw [storedKey_eq fits listed]
      exact fun leads => reached ⟨key, content, listed, leads⟩
    rw [Table.get_gather_of_none nowhere]
    constructor
    · rintro ⟨⟩
    · rintro ⟨key, leads, found⟩
      exact absurd ⟨key, metadata, Table.holds_of_get found, leads⟩ reached

/-- **Moved metadata.** What is at or below a moved folder is found at the same names below the
target, in place of what was there. -/
theorem metadataView_move (formed : FormedMetadata map) (target : PlainPath toPath)
    (fits : FitsMove map fromPath toPath) :
    metadataView (moveFolderMetadataSubtree map fromPath toPath) =
      moved (namesOf fromPath) (namesOf toPath) (metadataView map) := by
  funext names
  refine Option.ext fun metadata => ?_
  rw [metadataView_eq_some_iff, moved_eq_some_iff]
  constructor
  · rintro ⟨place, rfl, found⟩
    obtain ⟨key, leads, stored⟩ := (get_move_eq_some_iff formed target fits).mp found
    refine ⟨namesOf key, ?_, by rwa [metadataView_namesOf]⟩
    rw [← movedKey_names target (plainPath_of_valid (formed.of_get stored).1), leads]
    rfl
  · rintro ⟨old, leads, found⟩
    obtain ⟨key, rfl, stored⟩ := metadataView_eq_some_iff.mp found
    rw [← movedKey_names target (plainPath_of_valid (formed.of_get stored).1)] at leads
    obtain ⟨place, moves, rfl⟩ := Option.map_eq_some_iff.mp leads
    exact ⟨place, rfl, (get_move_eq_some_iff formed target fits).mpr ⟨key, moves, stored⟩⟩

theorem FormedMetadata.move (formed : FormedMetadata map) (target : PlainPath toPath)
    (fits : FitsMove map fromPath toPath) :
    FormedMetadata (moveFolderMetadataSubtree map fromPath toPath) := by
  have unique : (moveFolderMetadataSubtree map fromPath toPath).Unique := by
    rw [moveFolderMetadataSubtree_eq]
    exact Table.unique_gather
  refine ⟨unique, fun place metadata held => ?_⟩
  obtain ⟨key, leads, stored⟩ :=
    (get_move_eq_some_iff formed target fits).mp (unique.get_eq held)
  have storable := fits key metadata (Table.holds_of_get stored) place leads
  exact ⟨storable.1, storable.2, (formed.of_get stored).2.2⟩

theorem FormedMetadata.remove (formed : FormedMetadata map) (path : JsString) :
    FormedMetadata (removeFolderMetadataSubtree map path) :=
  formed.within List.filter_sublist

theorem FormedMetadata.edit {object : MetadataObject} (formed : FormedMetadata object.own)
    {path : JsString} (valid : validateVaultPath path .folder = true) (other : path ≠ prototypeName)
    {input normalized : FolderMetadataInput}
    (normal : normalizeFolderMetadataInput input = .ok normalized) :
    FormedMetadata (setMetadata object.own path
      (applyFolderMetadataInput (metadataAt object path) normalized)) := by
  unfold setMetadata assignMetadata
  rw [metadataAt_of_ne other]
  split_ifs with empty
  · exact formed.within (Table.within_delete object.own path)
  · have colored : ∃ color, (applyFolderMetadataInput ((object.own.get path).getD ⟨none⟩)
        normalized).color = some color ∧ NormalColor color := by
      unfold normalizeFolderMetadataInput at normal
      rcases input with ⟨_ | _ | color⟩
      · cases normal
        unfold applyFolderMetadataInput isEmptyMetadata at *
        cases found : object.own.get path with
        | none =>
            rw [found] at empty
            exact absurd rfl empty
        | some metadata => exact (formed.of_get found).2.2
      · cases normal
        exact absurd rfl empty
      · dsimp only at normal
        cases found : normalizeFolderMetadataColor color with
        | none =>
            rw [found] at normal
            cases normal
        | some normalColor =>
            rw [found] at normal
            cases normal
            exact ⟨normalColor, rfl, normalColor_of_normalize found⟩
    obtain ⟨color, stored, normalColor⟩ := colored
    exact formed.set valid other stored normalColor

/-- Reading adds entries to formed metadata. -/
theorem FormedMetadata.addFolder {object next : MetadataObject}
    (formed : FormedMetadata object.own) {entry : JsString × Json}
    (read : addFolder object entry = .ok next) : FormedMetadata next.own := by
  unfold Kb1Daemon.addFolder at read
  split_ifs at read with refused
  · cases read
  rw [Bool.not_eq_true', Bool.not_eq_false] at refused
  unfold normalizeFolderMetadataEntry at read
  split at read
  · rename_i record
    split at read
    · cases read
      exact formed
    · rename_i color same
      cases found : normalizeFolderMetadataColor color with
      | none =>
          rw [found] at read
          cases read
      | some normalColor =>
          rw [found] at read
          cases read
          unfold MetadataObject.assign
          dsimp only
          rw [if_neg (by simp [isEmptyMetadata])]
          split_ifs with proto
          · exact formed
          · exact formed.set refused proto rfl (normalColor_of_normalize found)
    · cases read
  · cases read

theorem formedMetadata_foldlM {entries : List (JsString × Json)} {object next : MetadataObject}
    (formed : FormedMetadata object.own) (read : entries.foldlM addFolder object = .ok next) :
    FormedMetadata next.own := by
  induction entries generalizing object with
  | nil =>
      cases read
      exact formed
  | cons entry rest ih =>
      rw [List.foldlM_cons] at read
      cases added : addFolder object entry with
      | error error =>
          rw [added] at read
          cases read
      | ok middle =>
          rw [added] at read
          exact ih (formed.addFolder added) read

/-- What is read is formed. -/
theorem formedMetadata_of_parse {content : FileContent} {object : MetadataObject}
    (read : parseFolderMetadata content = .ok object) : FormedMetadata object.own := by
  unfold parseFolderMetadata at read
  split at read
  · split at read
    · exact formedMetadata_foldlM formedMetadata_empty read
    · cases read
  · cases read

/-- A stored entry is read back. -/
theorem addFolder_metadataEntry {key : JsString} {metadata : FolderMetadata}
    (valid : validateVaultPath key .folder = true) (other : key ≠ prototypeName) {color : JsString}
    (colored : metadata.color = some color) (normal : NormalColor color) (object : MetadataObject) :
    addFolder object (metadataEntry (key, metadata)) =
      .ok ⟨object.own.set key metadata, object.prototype⟩ := by
  rcases metadata with ⟨stored⟩
  cases colored
  have read : Json.get [(units "color", Json.string color)] (units "color") =
      some (.string color) := by
    simp [Json.get]
  unfold addFolder metadataEntry normalizeFolderMetadataEntry
  dsimp only [Option.toList]
  rw [if_neg (by rw [valid]; decide), List.map_cons, List.map_nil, read]
  dsimp only
  unfold NormalColor at normal
  rw [normal]
  unfold MetadataObject.assign isEmptyMetadata
  simp [Except.map, other]

theorem foldlM_metadataEntry {entries : List (JsString × FolderMetadata)}
    (sound : ∀ key metadata, (key, metadata) ∈ entries → validateVaultPath key .folder = true ∧
      key ≠ prototypeName ∧ ∃ color, metadata.color = some color ∧ NormalColor color)
    (object : MetadataObject) :
    (entries.map metadataEntry).foldlM addFolder object =
      .ok ⟨entries.foldl (fun next entry => next.set entry.1 entry.2) object.own,
        object.prototype⟩ := by
  induction entries generalizing object with
  | nil => rfl
  | cons entry rest ih =>
      rcases entry with ⟨key, metadata⟩
      obtain ⟨valid, other, color, colored, normal⟩ := sound key metadata List.mem_cons_self
      rw [List.map_cons, List.foldlM_cons, addFolder_metadataEntry valid other colored normal object]
      exact ih (fun key metadata listed => sound key metadata (List.mem_cons_of_mem _ listed)) _

/-- **What is written is read back.** Formed metadata that is written is read as metadata of the
same folders. -/
theorem parseFolderMetadata_folderMetadataContent (formed : FormedMetadata map)
    (host : VaultHost) :
    ∃ again, parseFolderMetadata (folderMetadataContent host map) = .ok again ∧
      again.prototype = none ∧ metadataView again.own = metadataView map := by
  let sorted := map.entries.mergeSort fun left right => host.localeLe left.1 right.1
  have same : sorted.Perm map.entries := List.mergeSort_perm _ _
  have unique : Table.Unique (⟨sorted⟩ : FolderMetadataMap) :=
    (same.map Prod.fst).nodup_iff.mpr formed.unique
  refine ⟨⟨Table.gather Option.some ⟨sorted⟩, none⟩, ?_, rfl, ?_⟩
  · have read : Json.get [(units "folders", Json.object (sorted.map metadataEntry))]
        (units "folders") = some (.object (sorted.map metadataEntry)) := by
      simp [Json.get]
    unfold folderMetadataContent parseFolderMetadata
    dsimp only
    rw [read]
    exact foldlM_metadataEntry
      (fun key metadata listed => formed.sound key metadata (same.mem_iff.mp listed)) _
  · funext names
    refine Option.ext fun metadata => ?_
    rw [metadataView_eq_some_iff, metadataView_eq_some_iff]
    refine exists_congr fun key => and_congr_right fun _ => ?_
    rw [Table.get_gather unique fun entry _ => Option.some_inj]
    constructor
    · exact fun found => formed.unique.get_eq (same.mem_iff.mp (Table.holds_of_get found))
    · exact fun found => unique.get_eq (same.mem_iff.mpr (Table.holds_of_get found))

end Maps

end Kb1Daemon
