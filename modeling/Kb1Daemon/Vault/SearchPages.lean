import Kb1Daemon.Foundation.HostText
import Kb1Daemon.Foundation.Paging
import Kb1Daemon.Vault.Listing
import Mathlib.Algebra.Group.Action.Defs
import Mathlib.Algebra.Order.BigOperators.Group.List
import Mathlib.Algebra.Order.Group.Nat
import Mathlib.Algebra.Order.Ring.Rat
import Mathlib.Data.List.Lex
import Mathlib.Data.Nat.Cast.Order.Ring

/-! # Pages of a search

The walk of a search collects the notes below a folder that are not excluded
(`VaultContext.reads_walk`), and what it finds in them is a page of one list, the hits file by file
(`VaultContext.reads_searchFiles`). So the pages of a search tile its hits, for every limit of at
least one (`searchVaultFiles_tiles`).
-/

namespace Kb1Daemon

open JsString

/-- A note that a search reads. -/
def isSearchable (entry : WalkedEntry) : Bool :=
  entry.kind = .file && !isExcludedSearchPath entry.path && isMarkdownLikePath entry.path

/-- The lines of a file. -/
def entryLines : Posix.Entry FileContent → List JsString
  | .directory .. => []
  | .file content .. => content.text.splitOn lineFeed

/-- The line has the query. -/
def matchesLine (host : VaultHost) (lowerQuery line : JsString) : Bool :=
  lowerQuery <:+: host.toLocaleLowerCase line

/-- The hit in a line of a file with its index, if there is one. -/
def lineHit (host : VaultHost) (lowerQuery : JsString) (context : Nat) (filePath : JsString)
    (lines : List JsString) (row : JsString × Nat) : Option SearchHit :=
  if matchesLine host lowerQuery row.1 then
    some ⟨filePath, row.2 + 1, row.1, (lines.take row.2).drop (row.2 - context),
      (lines.drop (row.2 + 1)).take context⟩
  else none

def fileHits (host : VaultHost) (lowerQuery : JsString) (context : Nat) (filePath : JsString)
    (lines : List JsString) : List SearchHit :=
  lines.zipIdx.filterMap (lineHit host lowerQuery context filePath lines)

/-- What a search keeps of its hits: a page and their number. -/
def pageOf (offset limit : Nat) (hits : List SearchHit) : List SearchHit × Nat :=
  (Paging.page offset limit hits, hits.length)

/-- A page of no hits is empty. -/
theorem pageOf_nil (offset limit : Nat) : pageOf offset limit [] = ([], 0) := by
  rw [pageOf, Paging.page, List.drop_nil, List.take_nil]
  rfl

section Lines

variable {host : VaultHost} {lowerQuery filePath : JsString} {offset limit context : Nat}
  {lines : List JsString}

theorem searchLine_pageOf (hits : List SearchHit) (row : JsString × Nat) :
    searchLine host lowerQuery offset limit context filePath lines (pageOf offset limit hits) row =
      pageOf offset limit
        (hits ++ (lineHit host lowerQuery context filePath lines row).toList) := by
  unfold searchLine lineHit matchesLine
  by_cases found : lowerQuery <:+: host.toLocaleLowerCase row.1
  · rw [if_neg (not_not.mpr found), if_pos (decide_eq_true found), Option.toList_some, pageOf,
      pageOf, Paging.page_concat, List.length_append, List.length_singleton]
    split_ifs <;> rfl
  · rw [if_pos found, if_neg (by simpa using found), Option.toList_none, List.append_nil]

/-- The lines of a file add its hits. -/
theorem foldl_searchLine (rows : List (JsString × Nat)) (hits : List SearchHit) :
    rows.foldl (searchLine host lowerQuery offset limit context filePath lines)
        (pageOf offset limit hits) =
      pageOf offset limit
        (hits ++ rows.filterMap (lineHit host lowerQuery context filePath lines)) := by
  induction rows generalizing hits with
  | nil => rw [List.foldl_nil, List.filterMap_nil, List.append_nil]
  | cons row rows ih =>
      rw [List.foldl_cons, searchLine_pageOf, ih, List.append_assoc]
      congr 2
      cases found : lineHit host lowerQuery context filePath lines row with
      | none => rw [List.filterMap_cons_none found, Option.toList_none, List.nil_append]
      | some hit => rw [List.filterMap_cons_some found, Option.toList_some, List.singleton_append]

theorem mem_fileHits {hit : SearchHit} :
    hit ∈ fileHits host lowerQuery context filePath lines ↔ ∃ index,
      lines[index]? = some hit.lineText ∧ matchesLine host lowerQuery hit.lineText = true ∧
        hit = ⟨filePath, index + 1, hit.lineText, (lines.take index).drop (index - context),
          (lines.drop (index + 1)).take context⟩ := by
  rw [fileHits, List.mem_filterMap]
  constructor
  · rintro ⟨⟨line, index⟩, listed, found⟩
    have located := List.mem_zipIdx_iff_getElem?.mp listed
    unfold lineHit at found
    split_ifs at found with own
    cases found
    exact ⟨index, located, own, rfl⟩
  · rintro ⟨index, located, own, same⟩
    refine ⟨(hit.lineText, index), List.mem_zipIdx_iff_getElem?.mpr located, ?_⟩
    unfold lineHit
    rw [if_pos own, ← same]

theorem length_fileHits :
    (fileHits host lowerQuery context filePath lines).length =
      lines.countP (matchesLine host lowerQuery) := by
  rw [fileHits, List.length_filterMap_eq_countP]
  have same : (lines.zipIdx.map Prod.fst).countP (matchesLine host lowerQuery) =
      lines.countP (matchesLine host lowerQuery) := by rw [List.zipIdx_map_fst]
  rw [← same, List.countP_map]
  refine List.countP_congr fun row _ => ?_
  unfold lineHit
  rw [Function.comp_apply]
  split_ifs with found <;> simp [found]

/-- The hits of a file are in the order of its lines. -/
theorem pairwise_fileHits :
    (fileHits host lowerQuery context filePath lines).Pairwise fun first second =>
      first.path = second.path ∧ first.line < second.line := by
  have rising : lines.zipIdx.Pairwise fun first second => first.2 < second.2 := by
    have indices : (lines.zipIdx.map Prod.snd).Pairwise (· < ·) := by
      rw [List.zipIdx_map_snd]
      exact List.pairwise_lt_range'
    exact List.pairwise_map.mp indices
  refine List.pairwise_filterMap.mpr (rising.imp ?_)
  intro first second earlier hit found other listed
  unfold lineHit at found listed
  split_ifs at found listed
  cases found
  cases listed
  exact ⟨rfl, Nat.succ_lt_succ earlier⟩

end Lines

/-- The context of a hit is what is next to its line in the file, cut off at the ends of the
file. -/
structure Neighbours (context : Nat) (lines : List JsString) (hit : SearchHit) : Prop where
  around : ∃ front back, lines = front ++ hit.before ++ hit.lineText :: (hit.after ++ back) ∧
    hit.line = front.length + hit.before.length + 1
  before : hit.before.length = min context (hit.line - 1)
  after : hit.after.length = min context (lines.length - hit.line)

theorem neighbours_of_around {context : Nat} {front before after back : List JsString}
    {line : JsString} (beforeLength : before.length = min context (front.length + before.length))
    (afterLength : after.length = min context (after.length + back.length)) :
    ((front ++ before ++ line :: (after ++ back)).take (front.length + before.length)).drop
        (front.length + before.length - context) = before ∧
      ((front ++ before ++ line :: (after ++ back)).drop
        (front.length + before.length + 1)).take context = after := by
  have length : (front ++ before).length = front.length + before.length := List.length_append
  constructor
  · rw [← length, List.take_left, length]
    by_cases wide : context ≤ front.length + before.length
    · have skipped : front.length + before.length - context = front.length := by omega
      rw [skipped, List.drop_left]
    · have none : front = [] := List.length_eq_zero_iff.mp (by omega)
      subst none
      rw [List.nil_append, List.length_nil, Nat.zero_add, Nat.sub_eq_zero_of_le (by omega),
        List.drop_zero]
  · rw [← length, List.append_cons, List.drop_left' (by simp; omega)]
    by_cases wide : context ≤ after.length + back.length
    · rw [List.take_left' (by omega)]
    · have none : back = [] := List.length_eq_zero_iff.mp (by omega)
      subst none
      rw [List.append_nil, List.take_of_length_le (by omega)]

/-- The context that a search gives are the neighbours. -/
theorem neighbours_iff {context : Nat} {lines : List JsString} {hit : SearchHit} :
    Neighbours context lines hit ↔ ∃ index, lines[index]? = some hit.lineText ∧
      hit = ⟨hit.path, index + 1, hit.lineText, (lines.take index).drop (index - context),
        (lines.drop (index + 1)).take context⟩ := by
  rcases hit with ⟨path, line, lineText, before, after⟩
  constructor
  · rintro ⟨⟨front, back, whole, counted⟩, beforeLength, afterLength⟩
    dsimp only at whole counted beforeLength afterLength ⊢
    subst whole
    subst counted
    rw [List.length_append, List.length_append, List.length_cons, List.length_append] at afterLength
    obtain ⟨first, second⟩ := @neighbours_of_around context front before after back lineText
      (by omega) (by omega)
    refine ⟨front.length + before.length, ?_, ?_⟩
    · rw [List.getElem?_append_right (by rw [List.length_append]), List.length_append, Nat.sub_self]
      rfl
    · rw [first, second]
  · rintro ⟨index, located, same⟩
    dsimp only at located
    obtain ⟨within, own⟩ := List.getElem?_eq_some_iff.mp located
    have whole : lines = lines.take index ++ lineText :: lines.drop (index + 1) := by
      rw [← own, ← List.drop_eq_getElem_cons within, List.take_append_drop]
    cases same
    refine ⟨⟨(lines.take index).take (index - context), (lines.drop (index + 1)).drop context, ?_,
      ?_⟩, ?_, ?_⟩
    · rw [List.take_append_drop, List.take_append_drop]
      exact whole
    · change index + 1 = _
      rw [List.length_take, List.length_drop, List.length_take]
      omega
    · change _ = min context index
      rw [List.length_drop, List.length_take]
      omega
    · rw [List.length_take, List.length_drop]

namespace VaultContext

variable {tree : VaultTree} {ctx : VaultContext}

/-- What a walk collects of the entries of a listing. -/
def collected (entries : List WalkedEntry) : List JsString :=
  (entries.filter isSearchable).map WalkedEntry.path

theorem collected_append (first second : List WalkedEntry) :
    collected (first ++ second) = collected first ++ collected second := by
  rw [collected, List.filter_append, List.map_append]
  rfl

theorem collected_eq_nil {entries : List WalkedEntry}
    (excluded : ∀ entry ∈ entries, isExcludedSearchPath entry.path = true) :
    collected entries = [] := by
  rw [collected, List.map_eq_nil_iff, List.filter_eq_nil_iff]
  intro entry member searchable
  rw [isSearchable, excluded entry member] at searchable
  simp at searchable

/-- What is at or below an excluded path is excluded. -/
theorem isExcludedSearchPath_of_below {front path : JsString}
    (excluded : isExcludedSearchPath front = true) (below : namesOf front <+: namesOf path) :
    isExcludedSearchPath path = true := by
  unfold isExcludedSearchPath at excluded ⊢
  rw [Bool.or_eq_true, Bool.or_eq_true, decide_eq_true_eq] at excluded ⊢
  have trashed : path = trashName ∨ isUnder trashName path = true ↔
      namesOf trashName <+: namesOf path := by
    rw [namesOf_prefix_iff, ← isUnder_iff]
  rcases excluded with (internal | rfl) | under
  · refine .inl (.inl ?_)
    by_contra external
    rw [Bool.not_eq_true, ← external_iff] at external
    have inner : External front := fun segment member => external segment (below.subset member)
    rw [external_iff.mp inner] at internal
    cases internal
  · exact or_assoc.mpr (.inr (trashed.mpr below))
  · refine or_assoc.mpr (.inr (trashed.mpr (List.IsPrefix.trans ?_ below)))
    exact namesOf_prefix_iff.mpr (.inr (isUnder_iff.mp under))

/-- The walks below the folders collect what is below them. -/
def CollectsBelow (tree : VaultTree) (ctx : VaultContext)
    (descend : JsString → List JsString → VaultProgram (List JsString × Bool))
    (below : JsString → List WalkedEntry) : Prop :=
  ∀ rel files, Walked rel → tree.disk.isDirectoryAt (ctx.placeOf rel) = true →
    (files ++ collected (below rel)).length < searchEntryCap →
    tree.Reads (descend rel files) (.ok (files ++ collected (below rel), false))

variable {descend : JsString → List JsString → VaultProgram (List JsString × Bool)}
  {below : JsString → List WalkedEntry} {relDir : JsString}

theorem visible_cons (dirent : Dirent) (rest : List Dirent) {rel : JsString}
    (same : rel = if relDir = [] then dirent.name.text else posixJoin [relDir, dirent.name.text]) :
    visible relDir (dirent :: rest) =
      if isInternalVaultPath rel then visible relDir rest
      else (dirent, rel) :: visible relDir rest := by
  unfold visible
  rw [List.map_cons, List.filter_cons, ← same]
  by_cases internal : isInternalVaultPath rel = true
  · rw [if_pos internal, if_neg (by simp [internal])]
  · rw [if_neg internal, if_pos (by simp [internal])]

theorem walkRows_folder {dirent : Dirent} {rel : JsString} (folder : dirent.kind = .folder)
    (included : ¬ isExcludedSearchPath rel = true) (rows : List (Dirent × JsString))
    (files : List JsString) :
    walkRows descend ((dirent, rel) :: rows) files = (do
      let walked ← descend rel files
      if walked.2 then .done (walked.1, true) else walkRows descend rows walked.1) := by
  rw [walkRows, if_neg included, folder]

theorem walkRows_file {dirent : Dirent} {rel : JsString} (file : dirent.kind = .file)
    (included : ¬ isExcludedSearchPath rel = true) (rows : List (Dirent × JsString))
    (files : List JsString) :
    walkRows descend ((dirent, rel) :: rows) files =
      if isMarkdownLikePath rel then
        if searchEntryCap ≤ (files ++ [rel]).length then .done (files ++ [rel], true)
        else walkRows descend rows (files ++ [rel])
      else walkRows descend rows files := by
  rw [walkRows, if_neg included, file]

/-- The rows of a directory are collected, below the cap. -/
theorem reads_walkRows (descends : CollectsBelow tree ctx descend below)
    (begins : ∀ rel, Walked rel → ∀ entry ∈ below rel, namesOf rel <+: namesOf entry.path)
    {dirents : List Dirent}
    (shown : ∀ row ∈ visible relDir dirents, Shown tree ctx row) {files : List JsString}
    (few : (files ++ collected (shownRows tree ctx below (visible relDir dirents))).length <
      searchEntryCap) :
    tree.Reads
      (walkRows descend (dirents.map fun dirent =>
        (dirent, if relDir = [] then dirent.name.text else posixJoin [relDir, dirent.name.text]))
        files)
      (.ok (files ++ collected (shownRows tree ctx below (visible relDir dirents)), false)) := by
  induction dirents generalizing files with
  | nil =>
      have none : files ++ collected (shownRows tree ctx below (visible relDir [])) = files :=
        List.append_nil files
      rw [none]
      exact .done _
  | cons dirent rest ih =>
      obtain ⟨rel, same⟩ : ∃ rel, rel = if relDir = [] then dirent.name.text
        else posixJoin [relDir, dirent.name.text] := ⟨_, rfl⟩
      rw [visible_cons dirent rest same] at shown few ⊢
      rw [List.map_cons, ← same]
      by_cases internal : isInternalVaultPath rel = true
      · rw [if_pos internal] at shown few ⊢
        have excluded : isExcludedSearchPath rel = true := by
          rw [isExcludedSearchPath, internal, Bool.true_or, Bool.true_or]
        rw [walkRows, if_pos excluded]
        exact ih shown few
      rw [if_neg internal] at shown few ⊢
      obtain ⟨walked, entry, found, kind⟩ := shown (dirent, rel) List.mem_cons_self
      have others := fun row member => shown row (List.mem_cons_of_mem _ member)
      have listed := entryAt_of_get found
      rw [shownRows, List.flatMap_cons, ← shownRows, collected_append] at few ⊢
      dsimp only at walked found kind listed few ⊢
      by_cases excluded : isExcludedSearchPath rel = true
      · have nothing : collected (entryAt tree ctx rel ::
            if dirent.kind = .folder then below rel else []) = [] := by
          refine collected_eq_nil fun entry member => ?_
          refine isExcludedSearchPath_of_below excluded ?_
          rcases List.mem_cons.mp member with rfl | deeper
          · exact List.prefix_refl _
          · split_ifs at deeper
            · exact begins rel walked entry deeper
            · exact absurd deeper List.not_mem_nil
        rw [nothing, List.nil_append] at few ⊢
        rw [walkRows, if_pos excluded]
        exact ih others few
      cases entry with
      | directory mode modified =>
          have folder : dirent.kind = .folder := kind
          have own : collected (entryAt tree ctx rel :: below rel) = collected (below rel) := by
            unfold collected
            rw [List.filter_cons_of_neg]
            rw [listed, isSearchable]
            simp [VaultDisk.entryStat]
          rw [walkRows_folder folder excluded]
          rw [if_pos folder, own, ← List.append_assoc] at few ⊢
          have descended := descends rel files walked
            (Posix.Disk.isDirectoryAt_iff.mpr ⟨mode, modified, found⟩)
            (lt_of_le_of_lt (by simp only [List.length_append]; omega) few)
          exact descended.bind (ih others few)
      | file content mode modified =>
          have file : dirent.kind = .file := kind
          have plain : ¬ dirent.kind = .folder := by
            rw [file]
            decide
          have own : collected [entryAt tree ctx rel] =
              if isMarkdownLikePath rel then [rel] else [] := by
            unfold collected
            rw [List.filter_singleton, listed, isSearchable]
            by_cases marked : isMarkdownLikePath rel = true
            · simp [marked, excluded, VaultDisk.entryStat]
            · simp [marked]
          rw [walkRows_file file excluded]
          rw [if_neg plain, own] at few ⊢
          by_cases marked : isMarkdownLikePath rel = true
          · rw [if_pos marked, ← List.append_assoc] at few ⊢
            rw [if_pos marked, if_neg]
            · exact ih others few
            · rw [List.length_append] at few
              omega
          · rw [if_neg marked, List.nil_append] at few
            rw [if_neg marked, if_neg marked, List.nil_append]
            exact ih others few

/-- The walk collects the notes below a directory. -/
theorem reads_walk (proper : ctx.place ≠ []) (levels : Nat) (walked : relDir = [] ∨ Walked relDir)
    (directory : tree.disk.isDirectoryAt (ctx.placeOf relDir) = true) {files : List JsString}
    (few : (files ++ collected (listing tree ctx levels relDir)).length < searchEntryCap) :
    tree.Reads (ctx.walk levels relDir files)
      (.ok (files ++ collected (listing tree ctx levels relDir), false)) := by
  induction levels generalizing relDir files with
  | zero =>
      have none : files ++ collected (listing tree ctx 0 relDir) = files := List.append_nil files
      rw [none]
      exact .done _
  | succ levels ih =>
      unfold walk
      rw [directoryAt_of_walked proper walked]
      refine (VaultTree.reads_readdir directory).bind ?_
      refine reads_walkRows (fun rel files inner below few => ih (.inr inner) below few) ?_ ?_ few
      · intro rel inner entry member
        obtain ⟨names, _, same⟩ := namesOf_listed (.inr inner) member
        rw [same, inner.innerNames]
        exact List.prefix_append _ _
      · intro row shown
        obtain ⟨inner, _, _, there⟩ := VaultTree.mem_visible walked shown
        exact ⟨inner, there⟩

end VaultContext

namespace VaultTree

variable (tree : VaultTree)

/-- The notes below a folder that a search reads. -/
def searchable (ctx : VaultContext) (under : JsString) : List (Place × Posix.Entry FileContent) :=
  tree.disk.table.entries.filter fun row =>
    (ctx.placeOf under).isPrefixOf row.1 && isSearchable (ctx.walkedOf row)

/-- The lines of the file at a place. -/
def linesAt (place : Place) : List JsString :=
  match tree.disk.get place with
  | some entry => entryLines entry
  | none => []

end VaultTree

namespace VaultContext

variable {tree : VaultTree} {ctx : VaultContext} {under : JsString}

theorem mem_searchable {row : Place × Posix.Entry FileContent} :
    row ∈ tree.searchable ctx under ↔ tree.disk.get row.1 = some row.2 ∧
      ctx.placeOf under <+: row.1 ∧ isSearchable (ctx.walkedOf row) = true := by
  rw [VaultTree.searchable, List.mem_filter, Bool.and_eq_true, List.isPrefixOf_iff_prefix,
    VaultTree.get_eq_some_iff]

/-- Where a note is that a search reads. -/
theorem located_of_searchable (directory : tree.disk.isDirectoryAt (ctx.placeOf under) = true)
    {row : Place × Posix.Entry FileContent} (member : row ∈ tree.searchable ctx under) :
    ∃ names, names ≠ [] ∧ row.1 = ctx.placeOf under ++ names ∧
      namesOf (ctx.walkedOf row).path = innerNames under ++ names ∧
      ∃ content mode modified, row.2 = .file content mode modified := by
  obtain ⟨found, ⟨names, same⟩, searchable⟩ := mem_searchable.mp member
  rcases row with ⟨place, entry⟩
  dsimp only at found same
  subst same
  cases entry with
  | directory mode modified =>
      rw [isSearchable] at searchable
      simp [walkedOf, VaultDisk.entryStat] at searchable
  | file content mode modified =>
      have some : names ≠ [] := by
        rintro rfl
        rw [List.append_nil] at found
        rw [Posix.Disk.isDirectoryAt, found] at directory
        cases directory
      refine ⟨names, some, rfl, ?_, content, mode, modified, rfl⟩
      rw [placeOf, List.append_assoc] at found ⊢
      exact namesOf_walkedOf (List.append_ne_nil_of_right_ne_nil _ some) found

/-- A note that a search reads is at the place of its path. -/
theorem placeOf_of_searchable (directory : tree.disk.isDirectoryAt (ctx.placeOf under) = true)
    {row : Place × Posix.Entry FileContent} (member : row ∈ tree.searchable ctx under) :
    Walked (ctx.walkedOf row).path ∧ ctx.placeOf (ctx.walkedOf row).path = row.1 := by
  obtain ⟨names, some, place, same, _⟩ := located_of_searchable directory member
  obtain ⟨found, _, searchable⟩ := mem_searchable.mp member
  unfold isSearchable isExcludedSearchPath at searchable
  simp only [Bool.and_eq_true, Bool.not_eq_true', Bool.or_eq_false_iff] at searchable
  have external := external_iff.mpr searchable.1.2.1.1
  have walked : Walked (ctx.walkedOf row).path := by
    refine ⟨fun segment own => ?_, external⟩
    refine (tree.plain _ (VaultTree.get_eq_some_iff.mp found) segment ?_).1
    change segment ∈ namesOf _ at own
    rw [same] at own
    rw [place, placeOf, List.append_assoc]
    exact List.mem_append_right _ own
  refine ⟨walked, ?_⟩
  rw [placeOf, walked.innerNames, same, place, placeOf, List.append_assoc]

/-- No file is collected twice. -/
theorem nodup_collected (walked : under = [] ∨ Walked under) (levels : Nat) :
    (collected (listing tree ctx levels under)).Nodup := by
  have apart : ((listing tree ctx levels under).map WalkedEntry.path).Nodup := by
    refine List.pairwise_map.mpr ((pairwise_listing walked).imp ?_)
    intro earlier later separate same
    apply separate
    rw [same]
  exact apart.sublist (List.filter_sublist.map WalkedEntry.path)

/-- The walk collects the notes that a search reads. -/
theorem collected_perm (walked : under = [] ∨ Walked under)
    (directory : tree.disk.isDirectoryAt (ctx.placeOf under) = true) {levels : Nat}
    (deep : ∀ row ∈ tree.disk.table.entries, row.1.length ≤ levels) :
    (collected (listing tree ctx levels under)).Perm
      ((tree.searchable ctx under).map fun row => (ctx.walkedOf row).path) := by
  have listed := @listing_perm tree ctx under walked ((levels : Int) - 1)
  have count : ((levels : Int) - 1 + 1).toNat = levels := by omega
  rw [count] at listed
  have rows : (tree.scope (ctx.placeOf under) ((levels : Int) - 1)).filter
      (isSearchable ∘ ctx.walkedOf) = tree.searchable ctx under := by
    rw [VaultTree.scope, List.filter_filter]
    refine List.filter_congr fun row member => ?_
    rw [Function.comp_apply, Bool.and_comm, Bool.eq_iff_iff, Bool.and_eq_true, Bool.and_eq_true,
      List.isPrefixOf_iff_prefix, inScope_iff]
    refine and_congr_left fun searchable => ⟨?_, fun within => ?_⟩
    · rintro ⟨names, same, _⟩
      exact ⟨names, same.symm⟩
    · have own := mem_searchable.mpr ⟨VaultTree.get_eq_some_iff.mpr member, within, searchable⟩
      obtain ⟨names, some, place, same, _⟩ := located_of_searchable directory own
      have short := deep row member
      rw [place, List.length_append] at short
      refine ⟨names, place, some, by omega, fun name inside => ?_⟩
      refine (placeOf_of_searchable directory own).1.external name ?_
      change name ∈ namesOf _
      rw [same]
      exact List.mem_append_right _ inside
  have found := (listed.filter isSearchable).map WalkedEntry.path
  rwa [List.filter_map, rows, List.map_map] at found

theorem reads_collectSearchableFiles (proper : ctx.place ≠ []) (walked : under = [] ∨ Walked under)
    (directory : tree.disk.isDirectoryAt (ctx.placeOf under) = true) {levels : Nat}
    (few : (collected (listing tree ctx levels under)).length < searchEntryCap) :
    tree.Reads (ctx.collectSearchableFiles levels under)
      (.ok ((collected (listing tree ctx levels under)).mergeSort ctx.host.localeLe, false)) := by
  obtain ⟨mode, modified, found⟩ := Posix.Disk.isDirectoryAt_iff.mp directory
  have walks := @reads_walk tree ctx under proper levels walked directory [] (by simpa using few)
  rw [List.nil_append] at walks
  unfold collectSearchableFiles
  rw [directoryAt_of_walked proper walked]
  exact (VaultTree.reads_statOrNull found).bind (walks.bind (.done _))

/-- The files add their hits, one after another. -/
theorem reads_searchFiles (proper : ctx.place ≠ []) (lowerQuery : JsString)
    (offset limit context : Nat) {files : List JsString}
    (there : ∀ file ∈ files, Walked file ∧ ∃ content mode modified,
      tree.disk.get (ctx.placeOf file) = some (.file content mode modified))
    (hits : List SearchHit) :
    tree.Reads (ctx.searchFiles lowerQuery offset limit context files (pageOf offset limit hits))
      (.ok (pageOf offset limit (hits ++ files.flatMap fun file =>
        fileHits ctx.host lowerQuery context file (tree.linesAt (ctx.placeOf file))))) := by
  induction files generalizing hits with
  | nil =>
      rw [List.flatMap_nil, List.append_nil]
      exact .done _
  | cons file rest ih =>
      obtain ⟨walked, content, mode, modified, found⟩ := there file List.mem_cons_self
      have own : tree.linesAt (ctx.placeOf file) = content.text.splitOn lineFeed := by
        rw [VaultTree.linesAt, found]
        rfl
      unfold searchFiles
      rw [vaultPath_of_walked proper walked]
      refine (VaultTree.reads_readFile found).bind ?_
      dsimp only
      rw [foldl_searchLine, List.flatMap_cons, ← List.append_assoc, own]
      exact ih (fun other member => there other (List.mem_cons_of_mem _ member)) _

/-- The hits of the files, one file after another. -/
def searchHits (tree : VaultTree) (ctx : VaultContext) (lowerQuery : JsString) (context : Nat)
    (files : List JsString) : List SearchHit :=
  files.flatMap fun file =>
    fileHits ctx.host lowerQuery context file (tree.linesAt (ctx.placeOf file))

end VaultContext

/-- `localeCompare` is an order on texts, up to those that it holds equal. -/
structure VaultHost.Collates (host : VaultHost) : Prop where
  trans : ∀ first second third, host.localeLe first second = true →
    host.localeLe second third = true → host.localeLe first third = true
  total : ∀ first second, (host.localeLe first second || host.localeLe second first) = true

/-- The hits of a query below a folder: the lines with the query, each with its neighbours, file
by file and line by line. -/
structure Finds (tree : VaultTree) (ctx : VaultContext) (q under : JsString) (context : Nat)
    (hits : List SearchHit) : Prop where
  total : hits.length = ((tree.searchable ctx under).map fun row =>
    (entryLines row.2).countP (matchesLine ctx.host (ctx.host.toLocaleLowerCase (trim q)))).sum
  exact : ∀ hit, hit ∈ hits ↔ ∃ row ∈ tree.searchable ctx under,
    hit.path = (ctx.walkedOf row).path ∧
      matchesLine ctx.host (ctx.host.toLocaleLowerCase (trim q)) hit.lineText = true ∧
        Neighbours context (entryLines row.2) hit
  ordered : ∃ files : List JsString, files.Perm ((tree.searchable ctx under).map fun row =>
      (ctx.walkedOf row).path) ∧
    files.Pairwise (fun first second => ctx.host.localeLe first second = true) ∧
    hits.Pairwise fun first second => files.idxOf first.path < files.idxOf second.path ∨
      (first.path = second.path ∧ first.line < second.line)

/-- **What was written is found.** A line of a note that was written is among the hits if it has the
query. -/
theorem Finds.of_written {tree : VaultTree} {ctx : VaultContext} {q under : JsString}
    {context : Nat} {hits : List SearchHit} (finds : Finds tree ctx q under context hits)
    {row : Place × Posix.Entry FileContent} (listed : row ∈ tree.searchable ctx under)
    {content : JsString} {mode : Nat} {modified : Int}
    (written : row.2 = .file (.bytes (Utf8.encode content)) mode modified) {line : JsString}
    (inText : line ∈ (Utf8.toWellFormed content).splitOn lineFeed)
    (matched : matchesLine ctx.host (ctx.host.toLocaleLowerCase (trim q)) line = true) :
    ∃ hit ∈ hits, hit.path = (ctx.walkedOf row).path ∧ hit.lineText = line := by
  have lines : entryLines row.2 = (Utf8.toWellFormed content).splitOn lineFeed := by
    rw [written, entryLines, FileContent.text_encode]
  obtain ⟨index, located⟩ := List.mem_iff_getElem?.mp inText
  obtain ⟨hit, same⟩ : ∃ hit : SearchHit, hit = ⟨(ctx.walkedOf row).path, index + 1, line,
    ((entryLines row.2).take index).drop (index - context),
    ((entryLines row.2).drop (index + 1)).take context⟩ := ⟨_, rfl⟩
  have neighbours : Neighbours context (entryLines row.2) hit :=
    neighbours_iff.mpr ⟨index, by rw [same, lines, located], by rw [same]⟩
  subst same
  exact ⟨_, (finds.exact _).mpr ⟨row, listed, rfl, matched, neighbours⟩, rfl, rfl⟩

/-- The files come in the order of their list. -/
theorem pairwise_idxOf {files : List JsString} (once : files.Nodup) :
    files.Pairwise fun first second => files.idxOf first < files.idxOf second := by
  refine List.pairwise_iff_getElem.mpr fun first second firstIn secondIn earlier => ?_
  rwa [once.idxOf_getElem, once.idxOf_getElem]

namespace VaultContext

variable {tree : VaultTree} {ctx : VaultContext} {under : JsString}

/-- What is found in the sorted files are the hits. -/
theorem finds_searchHits (collates : ctx.host.Collates)
    (directory : tree.disk.isDirectoryAt (ctx.placeOf under) = true) (q : JsString) (context : Nat)
    {collected : List JsString} (once : collected.Nodup)
    (found : collected.Perm ((tree.searchable ctx under).map fun row => (ctx.walkedOf row).path)) :
    Finds tree ctx q under context
      (searchHits tree ctx (ctx.host.toLocaleLowerCase (trim q)) context
        (collected.mergeSort ctx.host.localeLe)) := by
  generalize lowered : ctx.host.toLocaleLowerCase (trim q) = lowerQuery
  have sorted : (collected.mergeSort ctx.host.localeLe).Perm _ :=
    (List.mergeSort_perm collected ctx.host.localeLe).trans found
  have onceSorted := (List.mergeSort_perm collected ctx.host.localeLe).nodup_iff.mpr once
  have lines : ∀ row ∈ tree.searchable ctx under,
      tree.linesAt (ctx.placeOf (ctx.walkedOf row).path) = entryLines row.2 := by
    intro row member
    rw [(placeOf_of_searchable directory member).2, VaultTree.linesAt,
      (mem_searchable.mp member).1]
  refine ⟨?_, ?_, _, sorted, List.pairwise_mergeSort collates.trans collates.total _, ?_⟩
  · rw [searchHits, List.length_flatMap, (sorted.map _).sum_nat, List.map_map, lowered]
    refine congrArg List.sum (List.map_congr_left fun row member => ?_)
    rw [Function.comp_apply, length_fileHits, lines row member]
  · intro hit
    rw [searchHits, List.mem_flatMap, lowered]
    constructor
    · rintro ⟨file, listed, own⟩
      obtain ⟨row, member, rfl⟩ := List.mem_map.mp (sorted.mem_iff.mp listed)
      rw [lines row member] at own
      obtain ⟨index, located, matched, same⟩ := mem_fileHits.mp own
      have path : hit.path = (ctx.walkedOf row).path := congrArg SearchHit.path same
      refine ⟨row, member, path, matched, neighbours_iff.mpr ⟨index, located, ?_⟩⟩
      rw [path]
      exact same
    · rintro ⟨row, member, path, matched, neighbours⟩
      obtain ⟨index, located, same⟩ := neighbours_iff.mp neighbours
      rw [path] at same
      refine ⟨_, sorted.mem_iff.mpr (List.mem_map_of_mem member), ?_⟩
      rw [lines row member]
      exact mem_fileHits.mpr ⟨index, located, matched, same⟩
  · refine List.pairwise_flatMap.mpr ⟨fun file _ => ?_, (pairwise_idxOf onceSorted).imp ?_⟩
    · exact pairwise_fileHits.imp .inr
    · intro first second earlier hit own other listed
      obtain ⟨_, _, _, same⟩ := mem_fileHits.mp own
      obtain ⟨_, _, _, alike⟩ := mem_fileHits.mp listed
      rw [same, alike]
      exact .inl earlier

end VaultContext

/-- The longest text of the host. -/
def maxStringLength : Nat := 2 ^ 29 - 24

/-- The text of a file. -/
def entryText : Posix.Entry FileContent → JsString
  | .directory .. => []
  | .file content .. => content.text

/-- A limit that is not between zero and one. -/
def WholeLimit (limit : Option JsNumber) : Prop :=
  ∀ value, limit = some (.finite value) → 0 < value → 1 ≤ value

/-- No more than the limit, if that is a positive number. -/
def AtMost (limit : Option JsNumber) (count : Nat) : Prop :=
  ∀ value, limit = some (.finite value) → 0 < value → (count : ℚ) ≤ value

theorem clampPositiveInteger_pos {limit : Option JsNumber} (whole : WholeLimit limit)
    {fallback max : Nat} (positive : 0 < fallback) (some : 0 < max) :
    0 < clampPositiveInteger limit fallback max := by
  unfold clampPositiveInteger
  split
  · rename_i value
    split_ifs with low
    · exact positive
    · have one := whole value rfl (not_le.mp low)
      have floor : (1 : Int) ≤ value.floor := Rat.le_floor_iff.mpr (by exact_mod_cast one)
      exact Nat.lt_min.mpr ⟨by omega, some⟩
  · exact positive

theorem atMost_clampPositiveInteger (limit : Option JsNumber) (fallback max : Nat) :
    AtMost limit (clampPositiveInteger limit fallback max) := by
  rintro value rfl positive
  have count : clampPositiveInteger (some (.finite value)) fallback max =
      min value.floor.toNat max := if_neg (not_le.mpr positive)
  have low : (0 : Int) ≤ value.floor := Rat.le_floor_iff.mpr (by exact_mod_cast positive.le)
  have floor : ((value.floor.toNat : Int) : ℚ) ≤ value := by
    rw [Int.toNat_of_nonneg low]
    exact Rat.floor_le value
  rw [count]
  refine le_trans ?_ floor
  exact_mod_cast Nat.min_le_left _ _

theorem clampNonNegativeInteger_ofNat (number fallback max : Nat) :
    clampNonNegativeInteger (some (.ofNat number)) fallback max = min number max := by
  have floor : ((number : ℚ)).floor = number := by
    exact_mod_cast Rat.floor_intCast (number : Int)
  rw [JsNumber.ofNat, clampNonNegativeInteger, if_neg (not_lt.mpr (Nat.cast_nonneg number)), floor]
  rfl

/-- The results at an offset. -/
def pageResults (tree : VaultTree) (ctx : VaultContext) (levels : Nat) (q : JsString)
    (under : Option JsString) (context limit : Option JsNumber) (offset : Nat) : List SearchHit :=
  match tree.outcome
      (ctx.searchVaultFiles levels ⟨q, under, context, limit, some (.ofNat offset)⟩) with
  | .ok result => result.results
  | .error _ => []

/-- The searches with one limit answer with pages of the hits, and a reader who goes on where a
page ended visits every hit once. -/
structure SearchTiles (tree : VaultTree) (ctx : VaultContext) (levels : Nat) (q : JsString)
    (under : Option JsString) (context limit : Option JsNumber) (hits : List SearchHit) : Prop where
  answered : ∀ offset, ∃ result,
    tree.outcome (ctx.searchVaultFiles levels ⟨q, under, context, limit, offset⟩) = .ok result ∧
      result.total = hits.length ∧ result.truncated = false
  page : ∀ offset ≤ hits.length, ∃ size,
    pageResults tree ctx levels q under context limit offset = (hits.drop offset).take size ∧
      0 < size ∧ size ≤ maxSearchLimit ∧ AtMost limit size
  visits : Paging.Visits (pageResults tree ctx levels q under context limit) 0 hits

namespace VaultContext

variable {tree : VaultTree} {ctx : VaultContext} {under : JsString}

theorem searchTiles_of_results {levels : Nat} {q : JsString} {under : Option JsString}
    {context limit : Option JsNumber} {hits : List SearchHit} (whole : WholeLimit limit)
    (few : hits.length ≤ maxSafeOffset)
    (answers : ∀ offset, ∃ result,
      tree.outcome (ctx.searchVaultFiles levels ⟨q, under, context, limit, offset⟩) = .ok result ∧
        result.total = hits.length ∧ result.truncated = false ∧
        result.results = Paging.page (clampNonNegativeInteger offset 0 maxSafeOffset)
          (clampPositiveInteger limit defaultSearchLimit maxSearchLimit) hits) :
    SearchTiles tree ctx levels q under context limit hits := by
  have positive := @clampPositiveInteger_pos limit whole defaultSearchLimit maxSearchLimit
    (by decide) (by decide)
  have pages : ∀ offset ≤ hits.length,
      pageResults tree ctx levels q under context limit offset = Paging.page offset
        (clampPositiveInteger limit defaultSearchLimit maxSearchLimit) hits := by
    intro offset within
    obtain ⟨result, ended, _, _, results⟩ := answers (some (.ofNat offset))
    rw [clampNonNegativeInteger_ofNat, min_eq_left (within.trans few)] at results
    rw [pageResults, ended]
    exact results
  refine ⟨fun offset => ?_, fun offset within => ⟨_, pages offset within, positive, ?_,
    atMost_clampPositiveInteger _ _ _⟩, Paging.visits_of_tiles positive pages (Nat.zero_le _)⟩
  · obtain ⟨result, ended, total, truncated, _⟩ := answers offset
    exact ⟨result, ended, total, truncated⟩
  · unfold clampPositiveInteger
    split
    · split_ifs
      · decide
      · exact Nat.min_le_right _ _
    · decide

theorem length_entryLines_le {entry : Posix.Entry FileContent}
    (short : (entryText entry).length ≤ maxStringLength) :
    (entryLines entry).length ≤ maxStringLength + 1 := by
  cases entry with
  | directory => exact Nat.zero_le _
  | file content => exact (Segments.length_splitOn_le content.text).trans (Nat.succ_le_succ short)

theorem length_hits_le {q : JsString} {context : Nat} {hits : List SearchHit}
    (finds : Finds tree ctx q under context hits)
    (few : (tree.searchable ctx under).length < searchEntryCap)
    (short : ∀ row ∈ tree.disk.table.entries, (entryText row.2).length ≤ maxStringLength) :
    hits.length ≤ maxSafeOffset := by
  rw [finds.total]
  refine (List.sum_le_card_nsmul _ (maxStringLength + 1) ?_).trans ?_
  · intro count member
    obtain ⟨row, listed, rfl⟩ := List.mem_map.mp member
    exact List.countP_le_length.trans
      (length_entryLines_le (short row (List.mem_of_mem_filter listed)))
  · rw [List.length_map, smul_eq_mul]
    have bound : searchEntryCap * (maxStringLength + 1) ≤ maxSafeOffset := by decide
    exact (Nat.mul_le_mul_right _ few.le).trans bound

/-- A search answers with a page of the hits in the sorted files. -/
theorem reads_searchVaultFiles {q : JsString} (some : trim q ≠ []) (proper : ctx.place ≠ [])
    {under : Option JsString}
    (valid : ∀ path, under = .some path → path = [] ∨ validateVaultPath path .folder = true)
    (directory : tree.disk.isDirectoryAt (ctx.placeOf (under.getD [])) = true)
    (few : (tree.searchable ctx (under.getD [])).length < searchEntryCap) {levels : Nat}
    (deep : ∀ row ∈ tree.disk.table.entries, row.1.length ≤ levels)
    (context : Option JsNumber) {hits : List SearchHit}
    (sorted : searchHits tree ctx (ctx.host.toLocaleLowerCase (trim q))
      (clampNonNegativeInteger context defaultContextLines maxContextLines)
      ((collected (listing tree ctx levels (under.getD []))).mergeSort ctx.host.localeLe) = hits)
    (limit offset : Option JsNumber) :
    tree.Reads (ctx.searchVaultFiles levels ⟨q, under, context, limit, offset⟩)
      (.ok ⟨q, under.getD [], clampPositiveInteger limit defaultSearchLimit maxSearchLimit,
        clampNonNegativeInteger offset 0 maxSafeOffset, hits.length, false,
        Paging.page (clampNonNegativeInteger offset 0 maxSafeOffset)
          (clampPositiveInteger limit defaultSearchLimit maxSearchLimit) hits⟩) := by
  have walked := walked_of_optional valid
  have found := @collected_perm tree ctx _ walked directory levels deep
  have collects := @reads_collectSearchableFiles tree ctx _ proper walked directory levels
    (by rw [found.length_eq, List.length_map]; exact few)
  have there : ∀ file ∈ (collected (listing tree ctx levels (under.getD []))).mergeSort
      ctx.host.localeLe, Walked file ∧ ∃ content mode modified,
        tree.disk.get (ctx.placeOf file) = .some (.file content mode modified) := by
    intro file listed
    obtain ⟨row, member, rfl⟩ := List.mem_map.mp (found.mem_iff.mp (List.mem_mergeSort.mp listed))
    obtain ⟨inner, place⟩ := placeOf_of_searchable directory member
    obtain ⟨_, _, _, _, content, mode, modified, same⟩ := located_of_searchable directory member
    refine ⟨inner, content, mode, modified, ?_⟩
    rw [place, (mem_searchable.mp member).1, same]
  have searched := reads_searchFiles proper (ctx.host.toLocaleLowerCase (trim q))
    (clampNonNegativeInteger offset 0 maxSafeOffset)
    (clampPositiveInteger limit defaultSearchLimit maxSearchLimit)
    (clampNonNegativeInteger context defaultContextLines maxContextLines) there []
  rw [List.nil_append, ← searchHits, pageOf_nil, sorted] at searched
  unfold searchVaultFiles
  rw [if_neg some, reads_validatedOptionalPath valid, Program.done_bind]
  exact collects.bind (searched.bind (.done _))

/-- A blank query has no hits. -/
theorem reads_blank {q : JsString} (blank : trim q = []) (levels : Nat) (under : Option JsString)
    (context limit offset : Option JsNumber) :
    tree.Reads (ctx.searchVaultFiles levels ⟨q, under, context, limit, offset⟩)
      (.ok ⟨q, [], clampPositiveInteger limit defaultSearchLimit maxSearchLimit,
        clampNonNegativeInteger offset 0 maxSafeOffset, 0, false, []⟩) := by
  unfold searchVaultFiles
  rw [if_pos blank]
  exact .done _

end VaultContext

open VaultContext in
/-- **Pages tile a search.** A search below a folder of a tree with fewer notes than the cap has one
list of hits, none for a blank query; its pages for a limit of at least one show that list. -/
theorem searchVaultFiles_tiles (tree : VaultTree) (ctx : VaultContext) (proper : ctx.place ≠ [])
    (collates : ctx.host.Collates) (q : JsString) (under : Option JsString)
    (valid : ∀ path, under = some path → path = [] ∨ validateVaultPath path .folder = true)
    (directory : tree.disk.isDirectoryAt (ctx.placeOf (under.getD [])) = true)
    (few : (tree.searchable ctx (under.getD [])).length < searchEntryCap)
    (short : ∀ row ∈ tree.disk.table.entries, (entryText row.2).length ≤ maxStringLength)
    (levels : Nat) (deep : ∀ row ∈ tree.disk.table.entries, row.1.length ≤ levels)
    (context : Option JsNumber) :
    ∃ hits,
      (trim q = [] → hits = []) ∧
      (trim q ≠ [] → Finds tree ctx q (under.getD [])
        (clampNonNegativeInteger context defaultContextLines maxContextLines) hits) ∧
      ∀ limit, WholeLimit limit → SearchTiles tree ctx levels q under context limit hits := by
  by_cases blank : trim q = []
  · refine ⟨[], fun _ => rfl, fun other => absurd blank other, fun limit whole => ?_⟩
    refine searchTiles_of_results whole (Nat.zero_le _) fun offset => ?_
    have ended := @reads_blank tree ctx q blank levels under context limit offset
    exact ⟨_, ended.outcome_eq, rfl, rfl, by rw [Paging.page, List.drop_nil, List.take_nil]⟩
  · have walked := walked_of_optional valid
    have found := @collected_perm tree ctx _ walked directory levels deep
    have once := @nodup_collected tree ctx _ walked levels
    have finds := @finds_searchHits tree ctx _ collates directory q
      (clampNonNegativeInteger context defaultContextLines maxContextLines) _ once found
    refine ⟨_, fun none => absurd none blank, fun _ => finds, fun limit whole => ?_⟩
    refine searchTiles_of_results whole (length_hits_le finds few short) fun offset => ?_
    have ended := reads_searchVaultFiles blank proper valid directory few deep context rfl limit
      offset
    exact ⟨_, ended.outcome_eq, rfl, rfl, rfl⟩

open ListingSample

theorem collates_rootVault : rootVault.host.Collates := ⟨fun _ _ _ _ _ => rfl, fun _ _ => rfl⟩

namespace SearchSample

/-- What a text is sorted by: its units without their case. -/
def sortKey (text : JsString) : List Nat := text.map fun unit => (lowerUnit unit).toNat

/-- A vault on a host whose collation does not regard the case. -/
def searchedVault : VaultContext :=
  { rootVault with
    host := ⟨List.map lowerUnit, List.map lowerUnit, fun left right =>
      decide (sortKey left ≤ sortKey right)⟩ }

/-- What the writes of several notes leave in an empty vault. -/
def searchedDisk : VaultDisk :=
  [("B.md", "x"), ("a.md", "x\ny\nX"), ("f/c.md", "y\nx"), ("f/d.md", "y"), ("trash/e.md", "x")].foldl
    (fun disk note =>
      ((searchedVault.writeVaultFile (units note.1) (units note.2) false).run
        (FsCall.perform fun _ => false) ⟨disk, false⟩).2.disk)
    (Posix.Disk.rootOnly directoryMode 0)

/-- A vault with notes in its root, in a folder and in the trash. -/
def searchedTree : VaultTree where
  disk := searchedDisk
  unique := by
    unfold Table.Unique
    decide +kernel
  plain := by
    unfold PlainSegment
    decide +kernel
  known := by decide +kernel

theorem collates_searchedVault : searchedVault.host.Collates where
  trans first second third before later := by
    have lower : sortKey first ≤ sortKey second := of_decide_eq_true before
    have upper : sortKey second ≤ sortKey third := of_decide_eq_true later
    exact decide_eq_true (lower.trans upper)
  total first second := by
    rw [Bool.or_eq_true]
    exact (le_total (sortKey first) (sortKey second)).imp decide_eq_true decide_eq_true

/-- The lines with an `x`, each with a line of context. -/
def searchedHits : List SearchHit :=
  [⟨units "a.md", 1, units "x", [], [units "y"]⟩, ⟨units "a.md", 3, units "X", [units "y"], []⟩,
    ⟨units "B.md", 1, units "x", [], []⟩, ⟨units "f/c.md", 2, units "x", [units "y"], []⟩]

/-- The notes of the vault, sorted. -/
theorem mergeSort_collected :
    (VaultContext.collected (VaultContext.listing searchedTree searchedVault 5 [])).mergeSort
      searchedVault.host.localeLe =
        [units "a.md", units "B.md", units "f/c.md", units "f/d.md"] := by
  have found : VaultContext.collected (VaultContext.listing searchedTree searchedVault 5 []) =
      [units "B.md", units "a.md", units "f/c.md", units "f/d.md"] := by decide +kernel
  rw [found]
  have apart : ∀ first ∈ [units "B.md", units "a.md", units "f/c.md", units "f/d.md"],
      ∀ second ∈ [units "a.md", units "B.md", units "f/c.md", units "f/d.md"],
        searchedVault.host.localeLe first second = true →
          searchedVault.host.localeLe second first = true → first = second := by decide +kernel
  have sorted : [units "a.md", units "B.md", units "f/c.md", units "f/d.md"].Pairwise fun left right =>
      searchedVault.host.localeLe left right = true := by decide +kernel
  refine List.Perm.eq_of_pairwise (fun first second listed => ?_) (List.pairwise_mergeSort
    collates_searchedVault.trans collates_searchedVault.total _) sorted
    ((List.mergeSort_perm _ _).trans (by decide +kernel))
  exact apart first (List.mem_mergeSort.mp listed) second

end SearchSample

open SearchSample

/-- A search through several notes has four hits, and two pages of two hits show them. -/
theorem searchVaultFiles_tiles_notes :
    ∃ hits,
      Finds searchedTree searchedVault (units "x") [] 1 hits ∧
      SearchTiles searchedTree searchedVault 5 (units "x") none (some (.ofNat 1)) (some (.ofNat 2))
        hits ∧
      hits = searchedHits ∧
      pageResults searchedTree searchedVault 5 (units "x") none (some (.ofNat 1)) (some (.ofNat 2))
        0 = searchedHits.take 2 ∧
      pageResults searchedTree searchedVault 5 (units "x") none (some (.ofNat 1)) (some (.ofNat 2))
        2 = searchedHits.drop 2 := by
  have proper : searchedVault.place ≠ [] := place_rootVault
  have directory : searchedTree.disk.isDirectoryAt
      (searchedVault.placeOf ((none : Option JsString).getD [])) = true := by decide +kernel
  have few : (searchedTree.searchable searchedVault ((none : Option JsString).getD [])).length <
      searchEntryCap := by decide +kernel
  have deep : ∀ row ∈ searchedTree.disk.table.entries, row.1.length ≤ 5 := by decide +kernel
  obtain ⟨hits, _, finds, tiles⟩ := searchVaultFiles_tiles searchedTree searchedVault proper
    collates_searchedVault (units "x") none (by rintro _ ⟨⟩) directory few (by decide +kernel) 5
    deep (some (.ofNat 1))
  have whole : WholeLimit (some (.ofNat 2)) := by
    rintro value ⟨⟩ _
    decide
  have tiled := tiles _ whole
  have pages : ∀ offset ≤ searchedHits.length,
      pageResults searchedTree searchedVault 5 (units "x") none (some (.ofNat 1)) (some (.ofNat 2))
        offset = Paging.page offset 2 searchedHits := by
    intro offset within
    have ended := @VaultContext.reads_searchVaultFiles searchedTree searchedVault (units "x")
      (by decide +kernel) proper none (by rintro _ ⟨⟩) directory few 5 deep (some (.ofNat 1))
      searchedHits (by rw [Option.getD_none, mergeSort_collected]; decide +kernel)
      (some (.ofNat 2)) (some (.ofNat offset))
    rw [pageResults, ended.outcome_eq, clampNonNegativeInteger_ofNat,
      min_eq_left (within.trans (by decide))]
    rfl
  have same : hits = searchedHits :=
    tiled.visits.unique (Paging.visits_of_tiles Nat.two_pos pages (Nat.zero_le _))
  exact ⟨hits, finds (by decide +kernel), tiled, same, pages 0 (by decide), pages 2 (by decide)⟩

/-- Every line has the blank query, and its search finds none of them. -/
theorem searchVaultFiles_blank :
    ¬ ∀ (tree : VaultTree) (ctx : VaultContext), ctx.place ≠ [] → ctx.host.Collates →
      ∀ (q : JsString) (under : Option JsString),
      (∀ path, under = some path → path = [] ∨ validateVaultPath path .folder = true) →
      tree.disk.isDirectoryAt (ctx.placeOf (under.getD [])) = true →
      (tree.searchable ctx (under.getD [])).length < searchEntryCap →
      (∀ row ∈ tree.disk.table.entries, (entryText row.2).length ≤ maxStringLength) →
      ∀ levels : Nat, (∀ row ∈ tree.disk.table.entries, row.1.length ≤ levels) →
      ∀ context : Option JsNumber, ∃ hits,
        Finds tree ctx q (under.getD [])
          (clampNonNegativeInteger context defaultContextLines maxContextLines) hits ∧
        ∀ value : ℚ, 0 < value →
          SearchTiles tree ctx levels q under context (some (.finite value)) hits := by
  intro claimed
  obtain ⟨hits, finds, tiles⟩ := claimed listedTree rootVault place_rootVault collates_rootVault []
    none (by rintro _ ⟨⟩) isDirectoryAt_root (by decide +kernel) (by decide +kernel) 4
    (by decide +kernel) none
  have lines : hits.length = 1 := by
    rw [finds.total]
    decide +kernel
  obtain ⟨result, ended, total, _⟩ := (tiles 1 (by decide)).answered none
  rw [(VaultContext.reads_blank rfl 4 none none _ none).outcome_eq] at ended
  cases ended
  rw [lines] at total
  exact absurd total (by decide)

end Kb1Daemon
