import Kb1Daemon.Snapshot.Restore

/-! # What the checks of a restore establish

The paths that are made lie below the two roots, no two of them are the same, none is below a
file, and every directory on the way to one is made before it (`RestorePlan.Checked`). A plan
that passes the checks is of this kind (`planRestore_checked`).
-/

universe u

namespace Kb1Daemon

open JsString

variable {Name : Type u}

/-- A segment of a safe path. -/
structure SafeSegment (segment : JsString) : Prop where
  proper : Segments.Proper slash segment
  ne_dot : segment ≠ [dot]
  ne_dots : segment ≠ [dot, dot]
  no_backslash : backslash ∉ segment
  no_null : 0 ∉ segment

theorem assertSafeSnapshotPath_iff {path : JsString} :
    assertSafeSnapshotPath path = .ok () ↔ ∀ segment ∈ path.splitOn slash, SafeSegment segment := by
  have whole : ∀ unit : CodeUnit, unit ≠ slash →
      (unit ∈ path ↔ ∃ segment ∈ path.splitOn slash, unit ∈ segment) := by
    intro unit other
    conv_lhs => rw [← @Segments.joined_splitOn _ _ slash path]
    exact Segments.mem_joined_iff other
  unfold assertSafeSnapshotPath
  constructor
  · intro safe
    split_ifs at safe with found
    rw [Bool.or_eq_true, Bool.or_eq_true, List.contains_iff_mem, List.contains_iff_mem,
      List.any_eq_true] at found
    rw [not_or, not_or] at found
    intro segment member
    have plain : ¬(segment = [] ∨ segment = [dot] ∨ segment = [dot, dot]) := by
      intro named
      refine found.2 ⟨segment, member, ?_⟩
      simpa [or_assoc] using named
    rw [not_or, not_or] at plain
    exact ⟨⟨plain.1, Segments.not_mem_of_mem_splitOn path segment member⟩, plain.2.1, plain.2.2,
      fun inside => found.1.1 ((whole _ (by decide)).mpr ⟨segment, member, inside⟩),
      fun inside => found.1.2 ((whole _ (by decide)).mpr ⟨segment, member, inside⟩)⟩
  · intro safe
    rw [if_neg]
    rw [Bool.or_eq_true, Bool.or_eq_true, List.contains_iff_mem, List.contains_iff_mem,
      List.any_eq_true]
    rintro ((inside | inside) | ⟨segment, member, found⟩)
    · obtain ⟨segment, member, inside⟩ := (whole _ (by decide)).mp inside
      exact (safe segment member).no_backslash inside
    · obtain ⟨segment, member, inside⟩ := (whole _ (by decide)).mp inside
      exact (safe segment member).no_null inside
    · simp only [Bool.or_eq_true, List.isEmpty_iff, decide_eq_true_eq] at found
      rcases found with (empty | single) | double
      · exact (safe segment member).proper.ne_nil empty
      · exact (safe segment member).ne_dot single
      · exact (safe segment member).ne_dots double

/-- A path that the restore may make: it is safe, and lies in one of the two roots. -/
structure IsRestorePath (path : JsString) : Prop where
  safe : ∀ segment ∈ path.splitOn slash, SafeSegment segment
  root : (path.splitOn slash).head? ∈ [some (units "vaults"), some (units ".trash")]

namespace IsRestorePath

variable {path : JsString}

theorem proper (own : IsRestorePath path) :
    ∀ segment ∈ path.splitOn slash, Segments.Proper slash segment :=
  fun segment member => (own.safe segment member).proper

/-- The segments of what is above a path. -/
theorem splitOn_front (own : IsRestorePath path) {front : List JsString} (some : front ≠ [])
    (higher : front <+: path.splitOn slash) : (Segments.joined slash front).splitOn slash = front :=
  Segments.splitOn_joined (fun segment member => own.proper segment (higher.subset member)) some

/-- What is above a path that may be made may be made. -/
theorem front (own : IsRestorePath path) {front : List JsString} (some : front ≠ [])
    (higher : front <+: path.splitOn slash) : IsRestorePath (Segments.joined slash front) := by
  have segments := own.splitOn_front some higher
  refine ⟨?_, ?_⟩
  · rw [segments]
    exact fun segment member => own.safe segment (higher.subset member)
  · obtain ⟨first, rest, rfl⟩ := List.exists_cons_of_ne_nil some
    obtain ⟨lower, same⟩ := higher
    have root := own.root
    rw [← same, List.cons_append, List.head?_cons] at root
    rw [segments, List.head?_cons]
    exact root

end IsRestorePath

/-- A computation that ends well goes on with the value of its first part. -/
theorem bind_eq_ok {Failure First Second : Type} {first : Except Failure First}
    {second : First → Except Failure Second} {result : Second} :
    (first >>= second) = .ok result ↔ ∃ value, first = .ok value ∧ second value = .ok result := by
  cases first with
  | error failure => exact iff_of_false nofun nofun
  | ok value => exact ⟨fun done => ⟨value, rfl, done⟩, fun ⟨_, same, done⟩ => by cases same; exact done⟩

/-- A check that ends well goes on. -/
theorem check_eq_ok {Failure Result : Type} {condition : Prop} [Decidable condition]
    {failure : Failure} {next : Except Failure Result} {result : Result} :
    (do if condition then throw failure
        next) = .ok result ↔ ¬condition ∧ next = .ok result := by
  by_cases failed : condition
  · rw [if_pos failed]
    exact iff_of_false nofun fun ⟨passed, _⟩ => passed failed
  · rw [if_neg failed]
    exact (and_iff_right failed).symm

theorem safePath_iff {path : JsString} {done : Unit} :
    safePath path = .ok done ↔ ∀ segment ∈ path.splitOn slash, SafeSegment segment := by
  rw [← assertSafeSnapshotPath_iff]
  unfold safePath
  cases assertSafeSnapshotPath path with
  | ok _ => exact iff_of_true rfl rfl
  | error failure => exact iff_of_false nofun nofun

theorem assertRestorePath_iff {path : JsString} {done : Unit} :
    assertRestorePath path = .ok done ↔ IsRestorePath path := by
  have rooted : ∀ outside : Prop, [Decidable outside] → ∀ failure : RestoreFailure,
      (if outside then throw failure else pure () : Except RestoreFailure Unit) = .ok done ↔
        ¬outside := by
    intro outside _ failure
    by_cases failed : outside
    · rw [if_pos failed]
      exact iff_of_false nofun (not_not_intro failed)
    · rw [if_neg failed]
      exact iff_of_true rfl failed
  unfold assertRestorePath
  rw [bind_eq_ok]
  constructor
  · rintro ⟨_, safe, checked⟩
    exact ⟨safePath_iff.mp safe, not_not.mp ((rooted _ _).mp checked)⟩
  · intro own
    exact ⟨(), safePath_iff.mpr own.safe, (rooted _ _).mpr (not_not_intro own.root)⟩

/-- The entry of an item of the manifest. -/
def entryPath (size : Option Nat) (item : PathMetadata) : JsString :=
  if size.isNone then item.path ++ [slash] else item.path

/-- What the check of an item asks for, and what it adds to the paths that are listed. -/
theorem listItem_iff {entries : List ZipEntry} {size : Option Nat} {listed next : ListedPaths}
    {item : PathMetadata} :
    listItem entries size listed item = .ok next ↔
      (∀ segment ∈ item.path.splitOn slash, SafeSegment segment) ∧
        IsRestorePath item.restorePath ∧ item.restorePath ∉ listed.restorePaths ∧
        entryPath size item ∉ listed.expectedEntries ∧
        (∃ entry, findEntry entries (entryPath size item) = some entry ∧
          ∀ bytes ∈ size, bytes = entry.uncompressedSize) ∧
        next = ⟨item.restorePath :: listed.restorePaths,
          entryPath size item :: listed.expectedEntries⟩ := by
  unfold listItem
  rw [bind_eq_ok]
  simp only [bind_eq_ok, safePath_iff, assertRestorePath_iff, exists_and_left, exists_const]
  refine and_congr_right fun _ => and_congr_right fun _ => ?_
  rw [check_eq_ok, check_eq_ok]
  refine and_congr_right fun _ => and_congr_right fun _ => ?_
  rw [← entryPath]
  cases findEntry entries (entryPath size item) with
  | none => exact iff_of_false nofun nofun
  | some entry =>
      dsimp only
      rw [check_eq_ok]
      have sizes : ¬size.any (fun bytes => bytes ≠ entry.uncompressedSize) = true ↔
          ∃ other, some entry = some other ∧ ∀ bytes ∈ size, bytes = other.uncompressedSize := by
        cases size <;> simp
      have result : ∀ made : ListedPaths,
          (pure made : Except RestoreFailure ListedPaths) = .ok next ↔ next = made := fun made =>
        ⟨fun same => (Except.ok.inj same).symm, fun same => congrArg Except.ok same.symm⟩
      exact and_congr sizes (result _)

/-- What the checks of some items establish, when their restore paths are added to others. -/
theorem foldlM_listItem {Item : Type u} {entries : List ZipEntry} {size : Item → Option Nat}
    {metadata : Item → PathMetadata} {items : List Item} {listed next : ListedPaths}
    (checked : items.foldlM (fun listed item => listItem entries (size item) listed (metadata item))
      listed = .ok next) :
    (∀ item ∈ items, IsRestorePath (metadata item).restorePath) ∧
      next.restorePaths =
        (items.map fun item => (metadata item).restorePath).reverse ++ listed.restorePaths ∧
      (listed.restorePaths.Nodup → next.restorePaths.Nodup) := by
  induction items generalizing listed with
  | nil =>
      cases checked
      exact ⟨by simp, rfl, id⟩
  | cons item items ih =>
      rw [List.foldlM_cons] at checked
      obtain ⟨middle, first, rest⟩ := bind_eq_ok.mp checked
      obtain ⟨_, own, fresh, _, _, rfl⟩ := listItem_iff.mp first
      obtain ⟨others, paths, nodup⟩ := ih rest
      refine ⟨List.forall_mem_cons.mpr ⟨own, others⟩, ?_, fun distinct =>
        nodup (List.nodup_cons.mpr ⟨fresh, distinct⟩)⟩
      rw [paths, List.map_cons, List.reverse_cons, List.append_assoc]
      rfl

theorem mem_addNew {paths : List JsString} {path other : JsString} :
    other ∈ addNew paths path ↔ other ∈ paths ∨ other = path := by
  unfold addNew
  split_ifs with known
  · exact ⟨.inl, fun either => either.elim id fun same => same ▸ known⟩
  · rw [List.mem_append, List.mem_singleton]

theorem nodup_addNew {paths : List JsString} (distinct : paths.Nodup) (path : JsString) :
    (addNew paths path).Nodup := by
  unfold addNew
  split_ifs with known
  · exact distinct
  · rw [List.nodup_append]
    refine ⟨distinct, List.nodup_singleton path, ?_⟩
    rintro other member _ own rfl
    exact known (List.mem_singleton.mp own ▸ member)

theorem foldl_addNew {paths others : List JsString} (distinct : paths.Nodup) :
    (others.foldl addNew paths).Nodup ∧
      ∀ other, other ∈ others.foldl addNew paths ↔ other ∈ paths ∨ other ∈ others := by
  induction others generalizing paths with
  | nil => simp [distinct]
  | cons path others ih =>
      obtain ⟨nodup, members⟩ := ih (nodup_addNew distinct path)
      refine ⟨nodup, fun other => ?_⟩
      rw [List.foldl_cons, members, mem_addNew, List.mem_cons, or_assoc]

/-- The paths above some paths are added to others. -/
theorem foldl_addParents {Item : Type u} {source : Item → JsString} {items : List Item}
    {paths : List JsString} (distinct : paths.Nodup) :
    (items.foldl (fun paths item => addParents paths (source item)) paths).Nodup ∧
      ∀ other, other ∈ items.foldl (fun paths item => addParents paths (source item)) paths ↔
        other ∈ paths ∨ ∃ item ∈ items, other ∈ parentPaths (source item) := by
  induction items generalizing paths with
  | nil => simp [distinct]
  | cons item items ih =>
      have step : (addParents paths (source item)).Nodup ∧
          ∀ other, other ∈ addParents paths (source item) ↔
            other ∈ paths ∨ other ∈ parentPaths (source item) := foldl_addNew distinct
      obtain ⟨here, found⟩ := step
      obtain ⟨nodup, members⟩ := ih here
      refine ⟨nodup, fun other => ?_⟩
      rw [List.foldl_cons, members, List.exists_mem_cons_iff, ← or_assoc]
      exact or_congr_left (found other)

theorem mem_parentPaths {path ancestor : JsString} :
    ancestor ∈ parentPaths path ↔
      ∃ front, front ≠ [] ∧ front ∈ Posix.above (path.splitOn slash) ∧
        Segments.joined slash front = ancestor := by
  have long := List.length_pos_iff.mpr (List.splitOn_ne_nil slash path)
  unfold parentPaths
  rw [List.mem_map]
  constructor
  · rintro ⟨count, inside, rfl⟩
    rw [List.mem_range'_1] at inside
    refine ⟨_, ?_, Posix.mem_above.mpr ⟨List.take_prefix count _, ?_⟩, rfl⟩
    · rw [Ne, List.take_eq_nil_iff]
      rintro (zero | empty)
      · omega
      · exact List.splitOn_ne_nil slash path empty
    · intro same
      have length := congrArg List.length same
      rw [List.length_take] at length
      omega
  · rintro ⟨front, some, higher, rfl⟩
    obtain ⟨inner, different⟩ := Posix.mem_above.mp higher
    have shorter : front.length < (path.splitOn slash).length :=
      lt_of_le_of_ne inner.length_le fun same => different (inner.eq_of_length same)
    refine ⟨front.length, ?_, ?_⟩
    · have := List.length_pos_iff.mpr some
      rw [List.mem_range'_1]
      omega
    · rw [← List.prefix_iff_eq_take.mp inner]

theorem splitOn_child {path : JsString} (own : IsRestorePath path) :
    (path ++ units "/child").splitOn slash = path.splitOn slash ++ [units "child"] := by
  have some := List.splitOn_ne_nil slash path
  have joined : Segments.joined slash (path.splitOn slash ++ [units "child"]) =
      path ++ units "/child" := by
    rw [Segments.joined_concat own.proper, Segments.joined_splitOn, Segments.child, if_neg]
    · rfl
    · rw [List.isEmpty_iff]
      rintro rfl
      exact (own.proper [] (by simp)).ne_nil rfl
  rw [← joined, Segments.splitOn_joined _ (by simp)]
  intro segment member
  rcases List.mem_append.mp member with inside | last
  · exact own.proper segment inside
  · rw [List.mem_singleton.mp last]
    exact ⟨by decide, by decide⟩

/-- The directories that are made are those of the manifest, what is above them and what is above
its files. -/
theorem mem_directoryPaths {directories : List PathMetadata} {files : List ManifestFile}
    (own : ∀ item ∈ directories, IsRestorePath item.restorePath) {path : JsString} :
    path ∈ directoryPaths directories files ↔
      (∃ item ∈ directories, ∃ front, front ≠ [] ∧ front <+: item.restorePath.splitOn slash ∧
        Segments.joined slash front = path) ∨
      ∃ file ∈ files, ∃ front, front ≠ [] ∧
        front ∈ Posix.above (file.restorePath.splitOn slash) ∧ Segments.joined slash front = path := by
  have first := @foldl_addParents _ (fun item : PathMetadata => item.restorePath ++ units "/child")
    directories [] List.nodup_nil
  have second := @foldl_addParents _ (fun file : ManifestFile => file.restorePath) files _ first.1
  rw [directoryPaths, second.2, first.2]
  simp only [List.not_mem_nil, false_or, mem_parentPaths]
  refine or_congr_left (exists_congr fun item => and_congr_right fun member => ?_)
  simp only [splitOn_child (own item member), Posix.mem_above_concat]

theorem nodup_directoryPaths (directories : List PathMetadata) (files : List ManifestFile) :
    (directoryPaths directories files).Nodup :=
  (@foldl_addParents _ (fun file : ManifestFile => file.restorePath) files _
    (@foldl_addParents _ (fun item : PathMetadata => item.restorePath ++ units "/child")
      directories [] List.nodup_nil).1).1

/-- What holds of a plan whose checks have passed. -/
structure RestorePlan.Checked (plan : RestorePlan) : Prop where
  own : ∀ path ∈ plan.created, IsRestorePath path
  distinct : plan.created.Nodup
  parents : ∀ path ∈ plan.created, ∀ front ∈ Posix.above (path.splitOn slash), front ≠ [] →
    Segments.joined slash front ∈ plan.paths
  ordered : plan.paths.Pairwise fun first second => pathDepth first ≤ pathDepth second
  directories : ∀ item ∈ plan.directories, item.restorePath ∈ plan.paths
  directories_distinct : (plan.directories.map PathMetadata.restorePath).Nodup

/-- Nothing that is made is below a file. -/
theorem RestorePlan.Checked.apart {plan : RestorePlan} (checked : plan.Checked)
    {file : ManifestFile × Option ZipStream} (listed : file ∈ plan.files) {path : JsString}
    (made : path ∈ plan.created) :
    file.1.restorePath.splitOn slash ∉ Posix.above (path.splitOn slash) := by
  intro higher
  have parent := checked.parents path made _ higher (List.splitOn_ne_nil _ _)
  rw [Segments.joined_splitOn] at parent
  exact (List.nodup_append.mp checked.distinct).2.2 _ parent _
    (List.mem_map.mpr ⟨file, listed, rfl⟩) rfl

/-- The checks of the items of a manifest. -/
structure ItemsChecked (directories : List PathMetadata) (files : List ManifestFile) : Prop where
  ownDirectories : ∀ item ∈ directories, IsRestorePath item.restorePath
  ownFiles : ∀ file ∈ files, IsRestorePath file.restorePath
  distinct : (directories.map PathMetadata.restorePath ++
    files.map fun file => file.restorePath).Nodup

theorem itemsChecked {entries : List ZipEntry} {directories : List PathMetadata}
    {files : List ManifestFile} (checked : checkItems entries directories files = .ok ()) :
    ItemsChecked directories files := by
  obtain ⟨first, listed, checked⟩ := bind_eq_ok.mp checked
  obtain ⟨second, others, _⟩ := bind_eq_ok.mp checked
  obtain ⟨ownDirectories, pathsDirectories, nodupDirectories⟩ :=
    @foldlM_listItem _ entries (fun _ => none) id directories _ _ listed
  obtain ⟨ownFiles, pathsFiles, nodupFiles⟩ :=
    @foldlM_listItem _ entries (fun file : ManifestFile => some file.sizeBytes)
      (fun file => file.toPathMetadata) files _ _ others
  have nodup := nodupFiles (nodupDirectories List.nodup_nil)
  rw [pathsFiles, pathsDirectories, List.append_nil, ← List.reverse_append,
    List.nodup_reverse] at nodup
  exact ⟨ownDirectories, ownFiles, nodup⟩

/-- Paths are made in the order of their depths. -/
theorem RestoreHost.insertionSort_ordered (host : RestoreHost Name) (paths : List JsString) :
    (paths.insertionSort (host.shallower · · = true)).Pairwise fun first second =>
      pathDepth first ≤ pathDepth second := by
  have depths : ∀ first second : JsString, host.shallower first second = true →
      pathDepth first ≤ pathDepth second := by
    intro first second shallower
    unfold RestoreHost.shallower at shallower
    grind
  have total : Std.Total fun first second => host.shallower first second = true := by
    refine ⟨fun first second => ?_⟩
    have either := host.total first second
    unfold RestoreHost.shallower
    grind
  have trans : IsTrans JsString fun first second => host.shallower first second = true := by
    refine ⟨fun first second third => ?_⟩
    have step := @RestoreHost.trans _ host first second third
    unfold RestoreHost.shallower
    grind
  exact (List.pairwise_insertionSort _ paths).imp fun {first second} => depths first second

/-- The plan of checked items, no file of which is a directory that is made, is checked. -/
theorem makePlan_checked {host : RestoreHost Name} {entries : List ZipEntry}
    {manifest : SnapshotManifest} {directories : List PathMetadata}
    (items : ItemsChecked directories manifest.files)
    (apart : ∀ file ∈ manifest.files,
      file.restorePath ∉ directoryPaths directories manifest.files) :
    (makePlan host entries manifest directories).Checked := by
  have members : ∀ path, path ∈ (makePlan host entries manifest directories).paths ↔
      path ∈ directoryPaths directories manifest.files := fun path => List.mem_insertionSort _
  have fileMembers : ∀ path, path ∈ (makePlan host entries manifest directories).files.map
        (fun file => file.1.restorePath) ↔ ∃ file ∈ manifest.files, file.restorePath = path := by
    intro path
    simp [makePlan]
  have ofDirectory : ∀ item ∈ directories, ∀ front, front ≠ [] →
      front <+: item.restorePath.splitOn slash →
        Segments.joined slash front ∈ (makePlan host entries manifest directories).paths :=
    fun item member front some higher => (members _).mpr
      ((mem_directoryPaths items.ownDirectories).mpr (.inl ⟨item, member, front, some, higher, rfl⟩))
  have ofFile : ∀ file ∈ manifest.files, ∀ front, front ≠ [] →
      front ∈ Posix.above (file.restorePath.splitOn slash) →
        Segments.joined slash front ∈ (makePlan host entries manifest directories).paths :=
    fun file member front some higher => (members _).mpr
      ((mem_directoryPaths items.ownDirectories).mpr (.inr ⟨file, member, front, some, higher, rfl⟩))
  constructor
  case own =>
    intro path made
    rcases List.mem_append.mp made with inside | isFile
    · rcases (mem_directoryPaths items.ownDirectories).mp ((members path).mp inside) with
        ⟨item, member, front, some, higher, rfl⟩ | ⟨file, member, front, some, higher, rfl⟩
      · exact (items.ownDirectories item member).front some higher
      · exact (items.ownFiles file member).front some (Posix.mem_above.mp higher).1
    · obtain ⟨file, member, rfl⟩ := (fileMembers path).mp isFile
      exact items.ownFiles file member
  case distinct =>
    refine List.nodup_append.mpr ⟨?_, ?_, ?_⟩
    · exact ((List.perm_insertionSort _ _).nodup_iff).mpr (nodup_directoryPaths _ _)
    · have files := (List.nodup_append.mp items.distinct).2.1
      rw [makePlan, List.map_map]
      exact files
    · rintro path inside _ isFile rfl
      obtain ⟨file, member, rfl⟩ := (fileMembers path).mp isFile
      exact apart file member ((members _).mp inside)
  case parents =>
    intro path made front higher some
    rcases List.mem_append.mp made with inside | isFile
    · rcases (mem_directoryPaths items.ownDirectories).mp ((members path).mp inside) with
        ⟨item, member, whole, whole', lower, rfl⟩ | ⟨file, member, whole, whole', lower, rfl⟩
      · rw [(items.ownDirectories item member).splitOn_front whole' lower] at higher
        exact ofDirectory item member front some ((Posix.mem_above.mp higher).1.trans lower)
      · have inner := (Posix.mem_above.mp lower).1
        rw [(items.ownFiles file member).splitOn_front whole' inner] at higher
        refine ofFile file member front some (Posix.mem_above.mpr ?_)
        refine ⟨(Posix.mem_above.mp higher).1.trans inner, ?_⟩
        rintro rfl
        exact (Posix.mem_above.mp lower).2 (inner.eq_of_length_le
          (Posix.mem_above.mp higher).1.length_le)
    · obtain ⟨file, member, rfl⟩ := (fileMembers path).mp isFile
      exact ofFile file member front some higher
  case ordered =>
    exact host.insertionSort_ordered _
  case directories =>
    intro item listed
    have member : item ∈ directories := (List.mem_insertionSort _).mp listed
    have whole := ofDirectory item member _ (List.splitOn_ne_nil _ _) (List.prefix_refl _)
    rwa [Segments.joined_splitOn] at whole
  case directories_distinct =>
    have directories := (List.nodup_append.mp items.distinct).1
    exact (((List.perm_insertionSort _ _).map _).nodup_iff).mpr directories

/-- A restore has a plan when its checks pass. -/
theorem planRestore_iff {host : RestoreHost Name} {archive : ZipArchive} {plan : RestorePlan} :
    planRestore host archive = .ok plan ↔
      ∃ entries manifest directories, listEntries archive = .ok entries ∧
        readManifest entries = .ok manifest ∧
        manifestDirectories entries manifest = .ok directories ∧
        checkItems entries directories manifest.files = .ok () ∧
        (∀ file ∈ manifest.files, file.restorePath ∉ directoryPaths directories manifest.files) ∧
        plan = makePlan host entries manifest directories := by
  have conflicts : ∀ (directories : List PathMetadata) (files : List ManifestFile),
      ¬files.any (fun file => file.restorePath ∈ directoryPaths directories files) = true ↔
        ∀ file ∈ files, file.restorePath ∉ directoryPaths directories files := by
    intro directories files
    simp
  have result : ∀ made : RestorePlan,
      (pure made : Except RestoreFailure RestorePlan) = .ok plan ↔ plan = made := fun made =>
    ⟨fun same => (Except.ok.inj same).symm, fun same => congrArg Except.ok same.symm⟩
  unfold planRestore
  simp only [bind_eq_ok, exists_and_left, Unique.exists_iff, PUnit.default_eq_unit, check_eq_ok,
    conflicts, result]

theorem planRestore_checked {host : RestoreHost Name} {archive : ZipArchive} {plan : RestorePlan}
    (planned : planRestore host archive = .ok plan) : plan.Checked := by
  obtain ⟨entries, manifest, directories, _, _, _, checked, apart, rfl⟩ :=
    planRestore_iff.mp planned
  exact makePlan_checked (itemsChecked checked) apart

end Kb1Daemon
