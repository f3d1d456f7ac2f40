import Kb1Daemon.Vault.Tree

/-! # The listing of a tree

The walk below a directory lists the entries of the tree that are few enough levels below it and
have no internal name (`VaultContext.mem_listing`), each once and a folder before its contents
(`VaultContext.pairwise_listing`), and it fails as soon as the entries reach the cap
(`VaultContext.reads_walkEntries`). So the listing of a tree is what it should be unless the tree
has exactly as many entries as the cap allows (`listVaultTree_complete_iff`).
-/

namespace Kb1Daemon

open JsString

/-- An entry without what is attached to it. -/
def WalkedEntry.bare (entry : WalkedEntry) : WalkedEntry := { entry with metadata := none }

/-- Below the start, at most one level more than the depth, and without an internal name. -/
def inScope (start : Place) (depth : Int) (place : Place) : Bool :=
  start.isPrefixOf place && place.drop start.length ≠ [] &&
    ((place.drop start.length).length : Int) ≤ depth + 1 &&
    (place.drop start.length).all fun name => !isInternalSegment name

theorem inScope_iff {start : Place} {depth : Int} {place : Place} :
    inScope start depth place = true ↔ ∃ names, place = start ++ names ∧ names ≠ [] ∧
      (names.length : Int) ≤ depth + 1 ∧ ∀ name ∈ names, isInternalSegment name = false := by
  unfold inScope
  simp only [Bool.and_eq_true, List.isPrefixOf_iff_prefix, decide_eq_true_eq, List.all_eq_true,
    Bool.not_eq_true', and_assoc]
  constructor
  · rintro ⟨⟨names, rfl⟩, some, few, external⟩
    rw [List.drop_left] at some few external
    exact ⟨names, rfl, some, few, external⟩
  · rintro ⟨names, rfl, some, few, external⟩
    rw [List.drop_left]
    exact ⟨List.prefix_append _ _, some, few, external⟩

namespace VaultTree

variable (tree : VaultTree)

/-- The entries of the tree that a listing from the start is about. -/
def scope (start : Place) (depth : Int) : List (Place × Posix.Entry FileContent) :=
  tree.disk.table.entries.filter fun row => inScope start depth row.1

def statAt (place : Place) : FileStat :=
  match tree.disk.get place with
  | some entry => VaultDisk.entryStat entry
  | none => ⟨.other, 0, 0⟩

variable {tree}

/-- The stat of what is there. -/
theorem statAt_of_get {place : Place} {entry : Posix.Entry FileContent}
    (found : tree.disk.get place = some entry) : tree.statAt place = VaultDisk.entryStat entry := by
  rw [statAt, found]

end VaultTree

/-- The entries, unless they reach the cap. -/
def capped (cap : Int) (entries : List WalkedEntry) : Except VaultFailure (List WalkedEntry) :=
  if cap ≤ entries.length then .error .entryCapExceeded else .ok entries

theorem capped_append {cap : Int} {entries : List WalkedEntry} (full : cap ≤ entries.length)
    (rest : List WalkedEntry) : capped cap (entries ++ rest) = .error .entryCapExceeded := by
  refine if_pos ?_
  rw [List.length_append]
  omega

namespace VaultContext

/-- The batches are the rows. -/
theorem flatten_statBatches {Row : Type} {count : Nat} {rows : List Row}
    (few : rows.length ≤ count) : (statBatches count rows).flatten = rows := by
  induction count generalizing rows with
  | zero =>
      rw [List.length_eq_zero_iff.mp (Nat.le_zero.mp few)]
      rfl
  | succ count ih =>
      cases rows with
      | nil => rfl
      | cons first rest =>
          have fewer : ((first :: rest).drop statBatchSize).length ≤ count := by
            rw [List.length_drop]
            unfold statBatchSize
            omega
          change (first :: rest).take statBatchSize ++
            (statBatches count ((first :: rest).drop statBatchSize)).flatten = first :: rest
          rw [ih fewer, List.take_append_drop]

variable (tree : VaultTree) (ctx : VaultContext)

/-- What is listed of an entry of the tree. -/
def walkedOf (row : Place × Posix.Entry FileContent) : WalkedEntry :=
  ⟨Segments.joined slash (row.1.drop ctx.place.length), (VaultDisk.entryStat row.2).kind,
    (VaultDisk.entryStat row.2).size, (VaultDisk.entryStat row.2).mtimeMs, none⟩

/-- What is listed of a path. -/
def entryAt (rel : JsString) : WalkedEntry :=
  ⟨rel, (tree.statAt (ctx.placeOf rel)).kind, (tree.statAt (ctx.placeOf rel)).size,
    (tree.statAt (ctx.placeOf rel)).mtimeMs, none⟩

/-- The rows, each with what `below` gives for a folder. -/
def shownRows (below : JsString → List WalkedEntry) (rows : List (Dirent × JsString)) :
    List WalkedEntry :=
  rows.flatMap fun row =>
    entryAt tree ctx row.2 :: if row.1.kind = .folder then below row.2 else []

/-- What the walk below a directory lists. -/
def listing : Nat → JsString → List WalkedEntry
  | 0, _ => []
  | below + 1, relDir =>
      shownRows tree ctx (listing below) (visible relDir (tree.dirents (ctx.placeOf relDir)))

/-- The row of an entry that is there. -/
structure Shown (row : Dirent × JsString) : Prop where
  walked : Walked row.2
  there : ∃ entry, tree.disk.get (ctx.placeOf row.2) = some entry ∧
    row.1.kind = (VaultDisk.entryStat entry).kind

variable {tree ctx} {cap : Int}

/-- The stats of shown rows are read. -/
theorem reads_statBatch (proper : ctx.place ≠ []) {rows : List (Dirent × JsString)}
    (shown : ∀ row ∈ rows, Shown tree ctx row) :
    tree.Reads (ctx.statBatch rows)
      (.ok (rows.map fun row => (row.1, row.2, .ok (tree.statAt (ctx.placeOf row.2))))) := by
  induction rows with
  | nil => exact .done _
  | cons row rows ih =>
      obtain ⟨walked, entry, found, _⟩ := shown row List.mem_cons_self
      have own : tree.Reads (ctx.statRow row.2) (.ok (.ok (tree.statAt (ctx.placeOf row.2)))) := by
        have resolved := vaultPath_of_walked proper walked
        unfold vaultPath at resolved
        unfold statRow
        cases located : resolveVaultPath ctx.cwd ctx.root row.2 with
        | error failure => rw [located] at resolved; cases resolved
        | ok path =>
            rw [located] at resolved
            cases resolved
            rw [VaultTree.statAt_of_get found]
            exact .call (VaultTree.perform_stat found) (.done _)
      exact own.bind ((ih fun other member => shown other (List.mem_cons_of_mem _ member)).bind
        (.done _))

theorem settled_map (rows : List (Dirent × JsString)) (stat : JsString → FileStat) :
    settled (rows.map fun row => (row.1, row.2, .ok (stat row.2))) =
      .ok (rows.map fun row => (row.1, row.2, stat row.2)) := by
  induction rows with
  | nil => rfl
  | cons row rows ih =>
      unfold settled at ih ⊢
      rw [List.map_cons, List.mapM_cons, ih]
      rfl

/-- The walks below the folders list what is below them. -/
def WalksBelow (tree : VaultTree) (ctx : VaultContext) (cap : Int)
    (descend : JsString → List WalkedEntry → VaultProgram (List WalkedEntry))
    (below : JsString → List WalkedEntry) : Prop :=
  ∀ rel entries, Walked rel → tree.disk.isDirectoryAt (ctx.placeOf rel) = true →
    tree.Reads (descend rel entries) (capped cap (entries ++ below rel))

variable {descend : JsString → List WalkedEntry → VaultProgram (List WalkedEntry)}
  {below : JsString → List WalkedEntry}

theorem addRows_folder {dirent : Dirent} {rel : JsString} {stat : FileStat} {entry : WalkedEntry}
    (folder : dirent.kind = .folder) (listed : entry = ⟨rel, .folder, 0, stat.mtimeMs, none⟩)
    (rows : List (Dirent × JsString × FileStat)) (entries : List WalkedEntry) :
    addRows cap descend ((dirent, rel, stat) :: rows) entries =
      if cap ≤ (entries ++ [entry]).length then .thrown .entryCapExceeded
      else descend rel (entries ++ [entry]) >>= addRows cap descend rows := by
  rw [addRows, folder, listed]

/-- A file is listed, unless the cap is reached. -/
theorem addRows_file {dirent : Dirent} {rel : JsString} {stat : FileStat} {entry : WalkedEntry}
    (file : dirent.kind = .file) (listed : entry = ⟨rel, .file, stat.size, stat.mtimeMs, none⟩)
    (rows : List (Dirent × JsString × FileStat)) (entries : List WalkedEntry) :
    addRows cap descend ((dirent, rel, stat) :: rows) entries =
      if cap ≤ (entries ++ [entry]).length then .thrown .entryCapExceeded
      else addRows cap descend rows (entries ++ [entry]) := by
  rw [addRows, file, listed]

/-- The row of what is there. -/
theorem entryAt_of_get {rel : JsString} {entry : Posix.Entry FileContent}
    (found : tree.disk.get (ctx.placeOf rel) = some entry) :
    entryAt tree ctx rel = ⟨rel, (VaultDisk.entryStat entry).kind, (VaultDisk.entryStat entry).size,
      (VaultDisk.entryStat entry).mtimeMs, none⟩ := by
  rw [entryAt, VaultTree.statAt_of_get found]

theorem reads_addRows (descends : WalksBelow tree ctx cap descend below)
    {rows : List (Dirent × JsString)} (shown : ∀ row ∈ rows, Shown tree ctx row)
    {entries : List WalkedEntry} (room : ¬ cap ≤ entries.length) :
    tree.Reads
      (addRows cap descend (rows.map fun row => (row.1, row.2, tree.statAt (ctx.placeOf row.2)))
        entries)
      (capped cap (entries ++ shownRows tree ctx below rows)) := by
  induction rows generalizing entries with
  | nil =>
      rw [shownRows, List.flatMap_nil, List.append_nil, capped, if_neg room]
      exact .done _
  | cons row rows ih =>
      rcases row with ⟨dirent, rel⟩
      obtain ⟨walked, entry, found, kind⟩ := shown (dirent, rel) List.mem_cons_self
      have others := fun other member => shown other (List.mem_cons_of_mem _ member)
      have listed := entryAt_of_get found
      rw [List.map_cons, shownRows, List.flatMap_cons, ← shownRows]
      dsimp only at kind found listed ⊢
      rw [VaultTree.statAt_of_get found]
      cases entry with
      | directory mode modified =>
          have folder : dirent.kind = .folder := kind
          have whole : entries ++ ((entryAt tree ctx rel :: below rel) ++
              shownRows tree ctx below rows) = entries ++ [entryAt tree ctx rel] ++ below rel ++
                shownRows tree ctx below rows := by simp
          rw [addRows_folder folder listed, if_pos folder, whole]
          split_ifs with full
          · rw [List.append_assoc, capped_append full]
            exact .thrown _
          have descended := descends rel (entries ++ [entryAt tree ctx rel]) walked
            (Posix.Disk.isDirectoryAt_iff.mpr ⟨mode, modified, found⟩)
          by_cases reached : cap ≤ (entries ++ [entryAt tree ctx rel] ++ below rel).length
          · rw [capped_append reached]
            rw [capped, if_pos reached] at descended
            exact descended.bind_error _
          · rw [capped, if_neg reached] at descended
            exact descended.bind (ih others reached)
      | file content mode modified =>
          have file : dirent.kind = .file := kind
          have plain : ¬ dirent.kind = .folder := by
            rw [file]
            decide
          rw [addRows_file file listed, if_neg plain, ← List.append_assoc]
          split_ifs with full
          · rw [capped_append full]
            exact .thrown _
          · exact ih others full

theorem reads_addBatches (proper : ctx.place ≠ []) (descends : WalksBelow tree ctx cap descend below)
    {batches : List (List (Dirent × JsString))}
    (shown : ∀ batch ∈ batches, ∀ row ∈ batch, Shown tree ctx row) {entries : List WalkedEntry}
    (room : ¬ cap ≤ entries.length) :
    tree.Reads (ctx.addBatches cap descend batches entries)
      (capped cap (entries ++ shownRows tree ctx below batches.flatten)) := by
  induction batches generalizing entries with
  | nil =>
      rw [List.flatten_nil, shownRows, List.flatMap_nil, List.append_nil, capped, if_neg room]
      exact .done _
  | cons batch batches ih =>
      have own := shown batch List.mem_cons_self
      have added := reads_addRows descends own room
      unfold addBatches
      refine (reads_statBatch proper own).bind ?_
      rw [settled_map batch fun rel => tree.statAt (ctx.placeOf rel)]
      dsimp only
      rw [List.flatten_cons, shownRows, List.flatMap_append, ← shownRows, ← shownRows,
        ← List.append_assoc]
      by_cases full : cap ≤ (entries ++ shownRows tree ctx below batch).length
      · rw [capped_append full]
        rw [capped, if_pos full] at added
        exact added.bind_error _
      · rw [capped, if_neg full] at added
        exact added.bind (ih (fun other member => shown other (List.mem_cons_of_mem _ member)) full)

/-- The walk adds what is below the directory, and fails when that reaches the cap. -/
theorem reads_walkEntries (proper : ctx.place ≠ []) (levels : Nat) {relDir : JsString}
    (walked : relDir = [] ∨ Walked relDir)
    (directory : tree.disk.isDirectoryAt (ctx.placeOf relDir) = true)
    (entries : List WalkedEntry) :
    tree.Reads (ctx.walkEntries cap levels relDir entries)
      (capped cap (entries ++ listing tree ctx levels relDir)) := by
  induction levels generalizing relDir entries with
  | zero =>
      unfold walkEntries
      rw [listing, List.append_nil, capped]
      split_ifs
      · exact .thrown _
      · exact .done _
  | succ levels ih =>
      unfold walkEntries
      split_ifs with full
      · rw [capped_append full]
        exact .thrown _
      have batches := @flatten_statBatches _ (tree.dirents (ctx.placeOf relDir)).length
        (visible relDir (tree.dirents (ctx.placeOf relDir)))
        ((List.length_filter_le _ _).trans (List.length_map _).le)
      dsimp only
      rw [directoryAt_of_walked proper walked]
      refine (VaultTree.reads_readdir directory).bind ?_
      have added := @reads_addBatches tree ctx cap _ _ proper
        (fun rel listed inner below => ih (.inr inner) below listed)
        (statBatches (tree.dirents (ctx.placeOf relDir)).length
          (visible relDir (tree.dirents (ctx.placeOf relDir)))) ?_ entries full
      · rw [batches] at added
        exact added
      intro batch listed row own
      obtain ⟨inner, _, _, there⟩ :=
        VaultTree.mem_visible walked (mem_of_mem_statBatches listed own)
      exact ⟨inner, there⟩

section Entries

variable {relDir : JsString}

theorem entryAt_eq_walkedOf {rel : JsString} (walked : Walked rel)
    {entry : Posix.Entry FileContent} (found : tree.disk.get (ctx.placeOf rel) = some entry) :
    entryAt tree ctx rel = ctx.walkedOf (ctx.placeOf rel, entry) := by
  rw [entryAt_of_get found, walkedOf, placeOf, List.drop_left, walked.innerNames, namesOf,
    Segments.joined_splitOn]

theorem placeOf_row (walked : relDir = [] ∨ Walked relDir) {row : Dirent × JsString}
    (shown : row ∈ visible relDir (tree.dirents (ctx.placeOf relDir))) :
    ctx.placeOf row.2 = ctx.placeOf relDir ++ [row.1.name.text] := by
  obtain ⟨inner, names, _⟩ := VaultTree.mem_visible walked shown
  rw [placeOf, placeOf, inner.innerNames, names, List.append_assoc]

/-- The entries that are listed are those of the tree below the directory, at most the levels
below it and without an internal name. -/
theorem mem_listing {levels : Nat} (walked : relDir = [] ∨ Walked relDir) {listed : WalkedEntry} :
    listed ∈ listing tree ctx levels relDir ↔ ∃ names entry, names ≠ [] ∧ names.length ≤ levels ∧
      (∀ name ∈ names, isInternalSegment name = false) ∧
      tree.disk.get (ctx.placeOf relDir ++ names) = some entry ∧
      listed = ctx.walkedOf (ctx.placeOf relDir ++ names, entry) := by
  induction levels generalizing relDir listed with
  | zero =>
      constructor
      · exact fun member => absurd member List.not_mem_nil
      · rintro ⟨names, _, some, few, _⟩
        exact absurd (List.length_eq_zero_iff.mp (Nat.le_zero.mp few)) some
  | succ levels ih =>
      rw [listing, shownRows, List.mem_flatMap]
      constructor
      · rintro ⟨row, shown, member⟩
        obtain ⟨inner, _, external, entry, found, kind⟩ := VaultTree.mem_visible walked shown
        have place := placeOf_row walked shown
        have own : ∀ name ∈ [row.1.name.text], isInternalSegment name = false := by
          intro name only
          rw [List.mem_singleton.mp only]
          exact external
        rcases List.mem_cons.mp member with rfl | deeper
        · refine ⟨[row.1.name.text], entry, List.cons_ne_nil _ _, Nat.succ_le_succ (Nat.zero_le _),
            own, ?_, ?_⟩
          · rw [← place]
            exact found
          · rw [← place]
            exact entryAt_eq_walkedOf inner found
        · split_ifs at deeper with folder
          · obtain ⟨rest, last, some, few, outer, there, rfl⟩ := (ih (.inr inner)).mp deeper
            refine ⟨row.1.name.text :: rest, last, List.cons_ne_nil _ _, Nat.succ_le_succ few, ?_,
              ?_, ?_⟩
            · exact List.forall_mem_cons.mpr ⟨external, outer⟩
            · rw [List.append_cons, ← place]
              exact there
            · rw [List.append_cons, ← place]
          · exact absurd deeper List.not_mem_nil
      · rintro ⟨names, last, some, few, external, there, rfl⟩
        obtain ⟨name, rest, rfl⟩ := List.exists_cons_of_ne_nil some
        obtain ⟨own, outer⟩ := List.forall_mem_cons.mp external
        rw [List.append_cons] at there ⊢
        by_cases top : rest = []
        · subst top
          rw [List.append_nil] at there ⊢
          obtain ⟨row, shown, named, kind⟩ := VaultTree.exists_visible walked there own
          have inner := walked_of_visible walked shown
          have place := placeOf_row walked shown
          rw [named] at place
          refine ⟨row, shown, List.mem_cons.mpr (.inl ?_)⟩
          rw [← place] at there ⊢
          exact (entryAt_eq_walkedOf inner there).symm
        · have present : (tree.disk.get (ctx.placeOf relDir ++ [name] ++ rest)).isSome = true := by
            rw [there, Option.isSome_some]
          have directory := Posix.Disk.isDirectoryAt_above present
            (Posix.mem_above.mpr ⟨List.prefix_append _ _, by simpa using top⟩)
          obtain ⟨mode, modified, found⟩ := Posix.Disk.isDirectoryAt_iff.mp directory
          obtain ⟨row, shown, named, kind⟩ := VaultTree.exists_visible walked found own
          have inner := walked_of_visible walked shown
          have place := placeOf_row walked shown
          rw [named] at place
          refine ⟨row, shown, List.mem_cons.mpr (.inr ?_)⟩
          rw [if_pos (show row.1.kind = .folder from kind)]
          rw [← place] at there ⊢
          exact (ih (.inr inner)).mpr
            ⟨rest, last, top, Nat.le_of_succ_le_succ few, outer, there, rfl⟩

/-- The path that is listed of an entry has the names of its place below the root. -/
theorem namesOf_walkedOf {names : Place} {entry : Posix.Entry FileContent} (some : names ≠ [])
    (found : tree.disk.get (ctx.place ++ names) = .some entry) :
    namesOf (ctx.walkedOf (ctx.place ++ names, entry)).path = names := by
  rw [walkedOf, List.drop_left, namesOf, Segments.splitOn_joined _ some]
  intro segment own
  have plain := tree.plain _ (VaultTree.get_eq_some_iff.mp found) segment
    (List.mem_append_right _ own)
  exact ⟨plain.1.1, plain.2⟩

/-- The names of what is listed go on after those of the directory. -/
theorem namesOf_listed {levels : Nat} (walked : relDir = [] ∨ Walked relDir)
    {listed : WalkedEntry} (member : listed ∈ listing tree ctx levels relDir) :
    ∃ names, names ≠ [] ∧ namesOf listed.path = innerNames relDir ++ names := by
  obtain ⟨names, entry, some, _, _, found, rfl⟩ := (mem_listing walked).mp member
  refine ⟨names, some, ?_⟩
  rw [placeOf, List.append_assoc] at found ⊢
  exact namesOf_walkedOf (List.append_ne_nil_of_right_ne_nil _ some) found

/-- Each entry is listed once, and a folder before its contents. -/
theorem pairwise_listing {levels : Nat} (walked : relDir = [] ∨ Walked relDir) :
    (listing tree ctx levels relDir).Pairwise fun earlier later =>
      ¬ namesOf later.path <+: namesOf earlier.path := by
  induction levels generalizing relDir with
  | zero => exact .nil
  | succ levels ih =>
      rw [listing, shownRows]
      have inner := fun row shown => @walked_of_visible relDir walked
        (tree.dirents (ctx.placeOf relDir)) row shown
      have begins : ∀ row ∈ visible relDir (tree.dirents (ctx.placeOf relDir)),
          ∀ listed ∈ (entryAt tree ctx row.2 ::
            if row.1.kind = .folder then listing tree ctx levels row.2 else []),
          namesOf row.2 <+: namesOf listed.path := by
        intro row shown listed member
        rcases List.mem_cons.mp member with rfl | deeper
        · exact List.prefix_refl _
        · split_ifs at deeper
          · obtain ⟨names, _, same⟩ := namesOf_listed (.inr (inner row shown)) deeper
            rw [same, (inner row shown).innerNames]
            exact List.prefix_append _ _
          · exact absurd deeper List.not_mem_nil
      refine List.pairwise_flatMap.mpr ⟨fun row shown => ?_, ?_⟩
      · split_ifs
        · refine List.pairwise_cons.mpr ⟨fun listed deeper within => ?_, ih (.inr (inner row shown))⟩
          obtain ⟨names, some, same⟩ := namesOf_listed (.inr (inner row shown)) deeper
          rw [same, (inner row shown).innerNames] at within
          have short := within.length_le
          rw [List.length_append] at short
          change (namesOf row.2).length + names.length ≤ (namesOf row.2).length at short
          have long := List.length_pos_of_ne_nil some
          omega
        · exact List.pairwise_singleton _ _
      · refine (List.Pairwise.and_mem.mp
          (VaultTree.pairwise_visible relDir (ctx.placeOf relDir))).imp ?_
        rintro first second ⟨firstShown, secondShown, different⟩ earlier firstBelow later
          secondBelow within
        have firstNames := (VaultTree.mem_visible walked firstShown).2.1
        have secondNames := (VaultTree.mem_visible walked secondShown).2.1
        have outer := (begins second secondShown later secondBelow).trans within
        have own := begins first firstShown earlier firstBelow
        rw [firstNames] at own
        rw [secondNames] at outer
        have same := (List.prefix_of_prefix_length_le own outer (by simp)).eq_of_length (by simp)
        exact different (List.singleton_inj.mp (List.append_cancel_left same))

/-- What is in scope is what the tree has there. -/
theorem mem_scope {start : Place} {depth : Int} {row : Place × Posix.Entry FileContent} :
    row ∈ tree.scope start depth ↔ tree.disk.get row.1 = some row.2 ∧ ∃ names,
      row.1 = start ++ names ∧ names ≠ [] ∧ (names.length : Int) ≤ depth + 1 ∧
        ∀ name ∈ names, isInternalSegment name = false := by
  rw [VaultTree.scope, List.mem_filter, inScope_iff, VaultTree.get_eq_some_iff]

/-- No place is twice in scope. -/
theorem nodup_scope (start : Place) (depth : Int) :
    ((tree.scope start depth).map Prod.fst).Nodup :=
  tree.unique.sublist ((List.filter_sublist).map Prod.fst)

/-- The listing is that of the entries in scope. -/
theorem listing_perm (walked : relDir = [] ∨ Walked relDir) (depth : Int) :
    (listing tree ctx (depth + 1).toNat relDir).Perm
      ((tree.scope (ctx.placeOf relDir) depth).map ctx.walkedOf) := by
  have once : (listing tree ctx (depth + 1).toNat relDir).Nodup := by
    refine (pairwise_listing walked).imp fun {earlier later} apart same => apart ?_
    rw [same]
  have distinct : ((tree.scope (ctx.placeOf relDir) depth).map ctx.walkedOf).Nodup := by
    refine List.Nodup.map_on ?_ (List.Nodup.of_map Prod.fst (nodup_scope _ _))
    rintro ⟨_, first⟩ firstMember ⟨_, second⟩ secondMember same
    obtain ⟨firstFound, firstNames, rfl, firstSome, _⟩ := mem_scope.mp firstMember
    obtain ⟨secondFound, secondNames, rfl, secondSome, _⟩ := mem_scope.mp secondMember
    rw [placeOf, List.append_assoc] at firstFound secondFound same
    rw [List.append_assoc] at same
    have names := namesOf_walkedOf (List.append_ne_nil_of_right_ne_nil _ firstSome) firstFound
    rw [same, namesOf_walkedOf (List.append_ne_nil_of_right_ne_nil _ secondSome) secondFound]
      at names
    have tails := List.append_cancel_left names
    subst tails
    dsimp only at firstFound secondFound
    rw [firstFound] at secondFound
    rw [Option.some.inj secondFound]
  refine (List.perm_ext_iff_of_nodup once distinct).mpr fun listed => ?_
  rw [mem_listing walked, List.mem_map]
  constructor
  · rintro ⟨names, entry, some, few, external, found, rfl⟩
    have long := List.length_pos_of_ne_nil some
    exact ⟨_, mem_scope.mpr ⟨found, names, rfl, some, by omega, external⟩, rfl⟩
  · rintro ⟨⟨_, entry⟩, member, rfl⟩
    obtain ⟨found, names, rfl, some, few, external⟩ := mem_scope.mp member
    exact ⟨names, entry, some, by omega, external, found, rfl⟩

end Entries

end VaultContext

/-- The entries of the tree within the depth below a folder, each once, a folder before its
contents. -/
structure ListsTree (tree : VaultTree) (ctx : VaultContext) (under : JsString) (depth : Int)
    (listed : List WalkedEntry) : Prop where
  complete : (listed.map WalkedEntry.bare).Perm
    ((tree.scope (ctx.placeOf under) depth).map ctx.walkedOf)
  once : (listed.map WalkedEntry.path).Nodup
  ordered : listed.Pairwise fun earlier later => isUnder later.path earlier.path = false

/-- The listing fails for more entries than the cap, and what it returns, if the folder metadata
can be read, is the tree. -/
structure ListsWithin (tree : VaultTree) (ctx : VaultContext) (under : JsString) (depth cap : Int)
    (outcome : Except VaultFailure (VaultResult (List WalkedEntry))) : Prop where
  refused : outcome = .ok (.error (VaultContext.entryCapError cap)) ↔
    cap < (tree.scope (ctx.placeOf under) depth).length
  listed : ∀ entries, outcome = .ok (.ok entries) → ListsTree tree ctx under depth entries
  returned : ∀ metadata, tree.outcome ctx.readFolderMetadataMap = .ok (.ok metadata) →
    (tree.scope (ctx.placeOf under) depth).length ≤ cap → ∃ entries, outcome = .ok (.ok entries)

namespace VaultContext

variable {tree : VaultTree} {ctx : VaultContext}

theorem map_bare_attachFolderMetadata (entries : List WalkedEntry) (metadata : MetadataObject) :
    (attachFolderMetadata entries metadata).map WalkedEntry.bare =
      entries.map WalkedEntry.bare := by
  unfold attachFolderMetadata
  rw [List.map_map]
  refine List.map_congr_left fun entry _ => ?_
  rw [Function.comp_apply]
  split_ifs <;> rfl

theorem map_path_of_map_bare {first second : List WalkedEntry}
    (same : first.map WalkedEntry.bare = second.map WalkedEntry.bare) :
    first.map WalkedEntry.path = second.map WalkedEntry.path := by
  have paths := congrArg (List.map WalkedEntry.path) same
  rwa [List.map_map, List.map_map] at paths

theorem isUnder_eq_false_of {front path : JsString} (apart : ¬ namesOf front <+: namesOf path) :
    isUnder front path = false := by
  rw [namesOf_prefix_iff, ← isUnder_iff] at apart
  simpa using fun below => apart (.inr below)

/-- The walk attaches no metadata. -/
theorem bare_of_mem_listing {levels : Nat} {relDir : JsString}
    (walked : relDir = [] ∨ Walked relDir) {entry : WalkedEntry}
    (member : entry ∈ listing tree ctx levels relDir) : entry.bare = entry := by
  obtain ⟨_, _, _, _, _, _, rfl⟩ := (mem_listing walked).mp member
  rfl

/-- The walk lists the tree. -/
theorem listsTree_listing {relDir : JsString} (walked : relDir = [] ∨ Walked relDir) (depth : Int)
    (metadata : MetadataObject) :
    ListsTree tree ctx relDir depth
      (attachFolderMetadata (listing tree ctx (depth + 1).toNat relDir) metadata) := by
  have bare := map_bare_attachFolderMetadata (listing tree ctx (depth + 1).toNat relDir) metadata
  have apart : ((listing tree ctx (depth + 1).toNat relDir).map WalkedEntry.path).Pairwise
      fun earlier later => ¬ namesOf later <+: namesOf earlier :=
    List.pairwise_map.mpr (pairwise_listing walked)
  rw [← map_path_of_map_bare bare] at apart
  refine ⟨?_, ?_, ?_⟩
  · rw [bare, List.map_congr_left fun entry member => bare_of_mem_listing walked member,
      List.map_id']
    exact listing_perm walked depth
  · refine apart.imp fun {earlier later} separate same => separate ?_
    rw [same]
  · exact (List.pairwise_map.mp apart).imp fun {earlier later} separate =>
      isUnder_eq_false_of separate

theorem code_of_normalizeFolderMetadataEntry {value : Json} {error : VaultError}
    (failed : normalizeFolderMetadataEntry value = .error error) :
    error.code = .metadataParseFailed := by
  unfold normalizeFolderMetadataEntry at failed
  split at failed
  · split at failed
    · cases failed
    · split at failed
      · cases failed
        rfl
      · cases failed
    · cases failed
      rfl
  · cases failed
    rfl

theorem code_of_addFolder {map : MetadataObject} {entry : JsString × Json} {error : VaultError}
    (failed : addFolder map entry = .error error) : error.code = .metadataParseFailed := by
  unfold addFolder at failed
  split_ifs at failed
  · cases failed
    rfl
  · cases normalized : normalizeFolderMetadataEntry entry.2 with
    | ok metadata => rw [normalized] at failed; cases failed
    | error other =>
        rw [normalized] at failed
        cases failed
        exact code_of_normalizeFolderMetadataEntry normalized

theorem code_of_parseFolderMetadata {content : FileContent} {error : VaultError}
    (failed : parseFolderMetadata content = .error error) : error.code = .metadataParseFailed := by
  have folded : ∀ (folders : List (JsString × Json)) (map : MetadataObject),
      folders.foldlM addFolder map = .error error → error.code = .metadataParseFailed := by
    intro folders
    induction folders with
    | nil => rintro map ⟨⟩
    | cons entry rest ih =>
        intro map refused
        rw [List.foldlM_cons] at refused
        cases added : addFolder map entry with
        | error other =>
            rw [added] at refused
            cases refused
            exact code_of_addFolder added
        | ok next =>
            rw [added] at refused
            exact ih next refused
  unfold parseFolderMetadata at failed
  split at failed
  · split at failed
    · exact folded _ _ failed
    · cases failed
      rfl
  · cases failed
    rfl

/-- The folder metadata is read, or the reading fails otherwise than at the cap. -/
theorem reads_readFolderMetadataMap (proper : ctx.place ≠ []) :
    ∃ outcome, tree.Reads ctx.readFolderMetadataMap outcome ∧
      (∀ failure, outcome = .error failure → ∃ code, failure = .system code) ∧
      ∀ error, outcome = .ok (.error error) → error.code = .metadataParseFailed := by
  obtain ⟨path, located⟩ : ∃ path, ctx.vaultPath folderMetadataRelativePath = .done path := by
    refine ⟨ctx.place ++ folderMetadataRelativePath.splitOn slash, vaultPath_of_resolved ?_⟩
    unfold resolveVaultPath
    rw [resolve_of_plain plain_folderMetadataRelativePath,
      if_pos (.inr ⟨proper, List.prefix_append _ _⟩)]
    rfl
  unfold readFolderMetadataMap
  rw [located, Program.done_bind]
  cases read : VaultDisk.readFile tree.disk (onDisk path) with
  | ok found =>
      obtain ⟨content, after⟩ := found
      obtain ⟨rfl, _⟩ := VaultDisk.readFile_eq_ok read
      have answered : FsCall.perform (fun _ => false) (.readFile path) ⟨tree.disk, false⟩ =
          (.ok content, ⟨tree.disk, false⟩) := by
        simp only [FsCall.perform, read, carryOut, id]
      refine ⟨.ok (parseFolderMetadata content), .call answered (.done _), by rintro _ ⟨⟩, ?_⟩
      exact fun error failed => code_of_parseFolderMetadata (Except.ok.inj failed)
  | error code =>
      have answered : FsCall.perform (fun _ => false) (.readFile path) ⟨tree.disk, false⟩ =
          (.error code, ⟨tree.disk, false⟩) := by
        simp only [FsCall.perform, read, carryOut]
      by_cases absent : code = .enoent
      · subst absent
        exact ⟨.ok (.ok .empty), .call answered (.done _), by rintro _ ⟨⟩, by rintro _ ⟨⟩⟩
      · refine ⟨.error (.system code), .call answered ?_, ?_, by rintro _ ⟨⟩⟩
        · cases code with
          | enoent => exact absurd rfl absent
          | _ => exact .thrown _
        · rintro _ ⟨⟩
          exact ⟨code, rfl⟩

/-- A valid start passes its check. -/
theorem reads_validatedOptionalPath {under : Option JsString}
    (valid : ∀ path, under = some path → path = [] ∨ validateVaultPath path .folder = true) :
    validatedOptionalPath under .folder = .done (under.getD []) := by
  unfold validatedOptionalPath
  split
  · rfl
  · rfl
  · rename_i path named
    exact validatedPath_of_valid ((valid path rfl).resolve_left fun empty => named (by rw [empty]))

theorem walked_of_optional {under : Option JsString}
    (valid : ∀ path, under = some path → path = [] ∨ validateVaultPath path .folder = true) :
    under.getD [] = [] ∨ Walked (under.getD []) := by
  cases under with
  | none => exact .inl rfl
  | some path => exact (valid path rfl).imp_right fun valid => walked_of_valid valid

/-- What a listing ends with, by what is listed and how the folder metadata is read. -/
def listed (cap : Int) (entries : List WalkedEntry)
    (read : Except VaultFailure (VaultResult MetadataObject)) :
    Except VaultFailure (VaultResult (List WalkedEntry)) :=
  if cap ≤ entries.length then .ok (.error (entryCapError cap))
  else read.map fun result => result.map (attachFolderMetadata entries)

theorem reads_listVaultTree (proper : ctx.place ≠ []) {under : Option JsString}
    (valid : ∀ path, under = some path → path = [] ∨ validateVaultPath path .folder = true)
    (directory : tree.disk.isDirectoryAt (ctx.placeOf (under.getD [])) = true)
    (depth entryCap : Option Int) {read : Except VaultFailure (VaultResult MetadataObject)}
    (reads : tree.Reads ctx.readFolderMetadataMap read)
    (fails : ∀ failure, read = .error failure → ∃ code, failure = .system code) :
    tree.Reads (ctx.listVaultTree under depth entryCap)
      (listed (entryCap.getD defaultEntryCap)
        (listing tree ctx ((depth.getD defaultDepth) + 1).toNat (under.getD [])) read) := by
  have walked := walked_of_optional valid
  obtain ⟨mode, modified, found⟩ := Posix.Disk.isDirectoryAt_iff.mp directory
  have walks := @reads_walkEntries tree ctx (entryCap.getD defaultEntryCap) proper
    ((depth.getD defaultDepth) + 1).toNat _ walked directory []
  rw [List.nil_append] at walks
  unfold listVaultTree
  rw [reads_validatedOptionalPath valid, Program.done_bind, directoryAt_of_walked proper walked,
    Program.done_bind]
  unfold listed
  unfold capped at walks
  split_ifs at walks ⊢ with full
  · refine @VaultTree.reads_classified_some _ _ _ _ .entryCapExceeded _ ?_ rfl
    exact (VaultTree.reads_statOrNull found).bind (walks.bind_error _)
  · cases read with
    | error failure =>
        obtain ⟨code, rfl⟩ := fails failure rfl
        refine VaultTree.reads_classified_none ((VaultTree.reads_statOrNull found).bind ?_) rfl
        exact walks.bind (reads.bind_error _)
    | ok result =>
        refine VaultTree.reads_classified ((VaultTree.reads_statOrNull found).bind ?_)
        refine walks.bind (reads.bind ?_)
        cases result <;> exact .done _

end VaultContext

open VaultContext in
/-- **Complete listings.** The listing of a folder fails for more entries than the cap, and lists
them otherwise, exactly when the tree has not just as many entries as the cap. -/
theorem listVaultTree_complete_iff (tree : VaultTree) (ctx : VaultContext) (proper : ctx.place ≠ [])
    (under : Option JsString)
    (valid : ∀ path, under = some path → path = [] ∨ validateVaultPath path .folder = true)
    (directory : tree.disk.isDirectoryAt (ctx.placeOf (under.getD [])) = true)
    (depth entryCap : Option Int) :
    ListsWithin tree ctx (under.getD []) (depth.getD defaultDepth) (entryCap.getD defaultEntryCap)
        (tree.outcome (ctx.listVaultTree under depth entryCap)) ↔
      (tree.scope (ctx.placeOf (under.getD [])) (depth.getD defaultDepth)).length ≠
        entryCap.getD defaultEntryCap := by
  have walked := walked_of_optional valid
  obtain ⟨read, reads, fails, refuses⟩ := @reads_readFolderMetadataMap tree ctx proper
  have count := (@listing_perm tree ctx _ walked (depth.getD defaultDepth)).length_eq
  rw [List.length_map] at count
  rw [(reads_listVaultTree proper valid directory depth entryCap reads fails).outcome_eq]
  generalize entryCap.getD defaultEntryCap = cap
  generalize depth.getD defaultDepth = depth at count ⊢
  unfold listed
  rw [count]
  constructor
  · intro lists same
    rw [if_pos same.ge] at lists
    have more := lists.refused.mp rfl
    omega
  · intro other
    refine ⟨?_, ?_, ?_⟩
    · split_ifs with full
      · exact iff_of_true rfl (by omega)
      · refine iff_of_false ?_ (by omega)
        intro same
        cases read with
        | error failure => cases same
        | ok result =>
            cases result with
            | ok metadata => cases same
            | error error =>
                cases same
                cases refuses _ rfl
    · intro entries same
      by_cases full : cap ≤ (tree.scope (ctx.placeOf (under.getD [])) depth).length
      · rw [if_pos full] at same
        cases same
      rw [if_neg full] at same
      cases read with
      | error failure => cases same
      | ok result =>
          cases result with
          | error error => cases same
          | ok metadata =>
              cases same
              exact listsTree_listing walked depth metadata
    · intro metadata known few
      rw [reads.outcome_eq] at known
      rw [if_neg (by omega), known]
      exact ⟨_, rfl⟩

namespace ListingSample

/-- What the write of a note leaves in an empty vault. -/
def listedDisk : VaultDisk :=
  ((rootVault.writeVaultRawFile (units "a.md") [] false).run
    (FsCall.perform fun _ => false) ⟨Posix.Disk.rootOnly directoryMode 0, false⟩).2.disk

/-- A vault with one note. -/
def listedTree : VaultTree where
  disk := listedDisk
  unique := by
    unfold Table.Unique
    decide +kernel
  plain := by
    unfold PlainSegment
    decide +kernel
  known := by decide +kernel

/-- What the write of two more notes in nested folders leaves. -/
def nestedDisk : VaultDisk :=
  [units "f/b.md", units "f/g/c.md"].foldl
    (fun disk path => ((rootVault.writeVaultRawFile path [] false).run
      (FsCall.perform fun _ => false) ⟨disk, false⟩).2.disk) listedDisk

/-- A vault with a note in the root, one in a folder and one in a folder of that folder. -/
def nestedTree : VaultTree where
  disk := nestedDisk
  unique := by
    unfold Table.Unique
    decide +kernel
  plain := by
    unfold PlainSegment
    decide +kernel
  known := by decide +kernel

theorem place_rootVault : rootVault.place ≠ [] := by decide +kernel

theorem isDirectoryAt_root :
    listedTree.disk.isDirectoryAt (rootVault.placeOf ((none : Option JsString).getD [])) = true := by
  decide +kernel

theorem length_scope :
    (listedTree.scope (rootVault.placeOf ((none : Option JsString).getD [])) 0).length = 1 := by
  decide +kernel

end ListingSample

open ListingSample

/-- Of nested folders and notes those are listed that the depth reaches, under a cap that is above
their number. -/
theorem listVaultTree_complete_nested :
    ListsWithin nestedTree rootVault [] 1 5
        (nestedTree.outcome (rootVault.listVaultTree none (some 1) (some 5))) ∧
      ((nestedTree.outcome (rootVault.listVaultTree none (some 1) (some 5))).toOption.bind
        Except.toOption).map (List.map WalkedEntry.path) =
          some [units "a.md", units "f", units "f/b.md", units "f/g"] := by
  have count : (nestedTree.scope (rootVault.placeOf ((none : Option JsString).getD [])) 1).length =
      4 := by decide +kernel
  have lists := (listVaultTree_complete_iff nestedTree rootVault place_rootVault none
    (by rintro _ ⟨⟩) (by decide +kernel) (some 1) (some 5)).mpr (by
      rw [Option.getD_some, count]
      decide)
  exact ⟨lists, by decide +kernel⟩

/-- One note is no more than a cap of one, and the listing fails. -/
theorem listVaultTree_fails_at_cap :
    ¬ ∀ (tree : VaultTree) (ctx : VaultContext), ctx.place ≠ [] → ∀ under : Option JsString,
      (∀ path, under = some path → path = [] ∨ validateVaultPath path .folder = true) →
      tree.disk.isDirectoryAt (ctx.placeOf (under.getD [])) = true →
      ∀ depth entryCap : Option Int, 0 ≤ depth.getD defaultDepth →
        ListsWithin tree ctx (under.getD []) (depth.getD defaultDepth)
          (entryCap.getD defaultEntryCap)
          (tree.outcome (ctx.listVaultTree under depth entryCap)) := by
  intro claimed
  have lists := claimed listedTree rootVault place_rootVault none (by rintro _ ⟨⟩)
    isDirectoryAt_root (some 0) (some 1) (by decide)
  obtain ⟨read, reads, fails, _⟩ :=
    @VaultContext.reads_readFolderMetadataMap listedTree rootVault place_rootVault
  have listed : listedTree.Reads (rootVault.listVaultTree none (some 0) (some 1))
      (VaultContext.listed 1 (VaultContext.listing listedTree rootVault (0 + 1 : Int).toNat []) read) :=
    VaultContext.reads_listVaultTree place_rootVault (by rintro _ ⟨⟩) isDirectoryAt_root (some 0)
      (some 1) reads fails
  have count := (@VaultContext.listing_perm listedTree rootVault [] (.inl rfl) 0).length_eq
  rw [List.length_map] at count
  have full : (1 : Int) ≤
      (VaultContext.listing listedTree rootVault (0 + 1 : Int).toNat []).length := by
    rw [count]
    exact Int.ofNat_le.mpr length_scope.ge
  rw [VaultContext.listed, if_pos full] at listed
  have more := lists.refused.mp listed.outcome_eq
  rw [Option.getD_some, Option.getD_some, length_scope] at more
  exact absurd more (by decide)

end Kb1Daemon
