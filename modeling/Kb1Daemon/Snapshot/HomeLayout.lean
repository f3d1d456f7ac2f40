import Kb1Daemon.Snapshot.RestorePlan

/-! # The home while it is restored

While a restore runs, the disk is the one it started from, but for the home; and the home holds
the directories and files that are made so far and nothing else (`HomeLayout`). Making an entry
and changing one keep this; what is not made yet can be made as soon as all that is above it
grants its rights.
-/

universe u

namespace Kb1Daemon

open JsString
open Posix (above mem_above mem_above_concat)

variable {Name : Type u} {host : RestoreHost Name} {home : List JsString}

theorem joinSegments_safe {directory : List JsString} {path : JsString}
    (safe : ∀ segment ∈ path.splitOn slash, SafeSegment segment) :
    joinSegments directory path = directory ++ path.splitOn slash := by
  have loop : ∀ (segments before : List JsString), (∀ segment ∈ segments, SafeSegment segment) →
      segments.foldl
        (fun before segment =>
          if segment = [] ∨ segment = [dot] then before
          else if segment = [dot, dot] then before.dropLast
          else before ++ [segment]) before = before ++ segments := by
    intro segments
    induction segments with
    | nil => exact fun before _ => (List.append_nil before).symm
    | cons segment segments ih =>
        intro before safe
        have own := safe segment List.mem_cons_self
        rw [List.foldl_cons, if_neg (not_or.mpr ⟨own.proper.ne_nil, own.ne_dot⟩),
          if_neg own.ne_dots, ih _ fun other member => safe other (List.mem_cons_of_mem _ member),
          List.append_assoc, List.singleton_append]
  exact loop _ _ safe

/-- A path is made below the home, under the names of its segments. -/
theorem place_eq {path : JsString} (own : IsRestorePath path) :
    host.place home path = host.homePlace home ++ (path.splitOn slash).map host.nameOf := by
  rw [RestoreHost.place, joinSegments_safe own.safe, List.map_append]
  rfl

theorem place_front {path : JsString} (own : IsRestorePath path) {front : List JsString}
    (some : front ≠ []) (higher : front <+: path.splitOn slash) :
    host.place home (Segments.joined slash front) =
      host.homePlace home ++ front.map host.nameOf := by
  rw [place_eq (own.front some higher), own.splitOn_front some higher]

theorem home_prefix_place {path : JsString} (own : IsRestorePath path) :
    host.homePlace home <+: host.place home path := by
  rw [place_eq own]
  exact List.prefix_append _ _

theorem place_ne_home {path : JsString} (own : IsRestorePath path) :
    host.place home path ≠ host.homePlace home := by
  intro same
  rw [place_eq own] at same
  have none := List.append_cancel_left (same.trans (List.append_nil _).symm)
  exact List.splitOn_ne_nil slash path (List.map_eq_nil_iff.mp none)

section Places

variable [DecidableEq Name]

/-- What is above the place of a path is above the home, or the home or a directory in it. -/
theorem mem_above_place {path : JsString} (own : IsRestorePath path) {other : List Name} :
    other ∈ above (host.place home path) ↔ other ∈ above (host.homePlace home) ∨
      ∃ front ∈ above (path.splitOn slash), other = host.homePlace home ++ front.map host.nameOf := by
  have some : (path.splitOn slash).map host.nameOf ≠ [] := by
    simp
  rw [place_eq own, mem_above, mem_above]
  constructor
  · rintro ⟨inner, different⟩
    rcases List.prefix_or_prefix_of_prefix inner (List.prefix_append _ _) with higher | lower
    · by_cases same : other = host.homePlace home
      · refine .inr ⟨[], mem_above.mpr ⟨List.nil_prefix, ?_⟩, by rw [same]; simp⟩
        exact (List.splitOn_ne_nil slash path).symm
      · exact .inl ⟨higher, same⟩
    · obtain ⟨rest, rfl⟩ := lower
      rw [List.prefix_append_right_inj, List.prefix_map_iff] at inner
      obtain ⟨front, higher, rfl⟩ := inner
      refine .inr ⟨front, mem_above.mpr ⟨higher, ?_⟩, rfl⟩
      rintro rfl
      exact different rfl
  · rintro (⟨higher, different⟩ | ⟨front, inner, rfl⟩)
    · refine ⟨higher.trans (List.prefix_append _ _), ?_⟩
      rintro rfl
      have length := higher.length_le
      rw [List.length_append] at length
      have := List.length_pos_iff.mpr some
      omega
    · obtain ⟨higher, different⟩ := mem_above.mp inner
      refine ⟨(List.prefix_append_right_inj _).mpr (higher.map _), ?_⟩
      intro same
      have lengths := congrArg List.length (List.append_cancel_left same)
      rw [List.length_map, List.length_map] at lengths
      exact different (higher.eq_of_length lengths)

omit [DecidableEq Name] in
/-- The directory that a path is made in. -/
theorem dropLast_place {path : JsString} (own : IsRestorePath path) :
    ∃ front ∈ above (path.splitOn slash),
      (host.place home path).dropLast = host.homePlace home ++ front.map host.nameOf := by
  refine ⟨(path.splitOn slash).dropLast, mem_above.mpr ⟨List.dropLast_prefix _, ?_⟩, ?_⟩
  · intro same
    have length := congrArg List.length same
    rw [List.length_dropLast] at length
    have := List.length_pos_iff.mpr (List.splitOn_ne_nil slash path)
    omega
  · rw [place_eq own, List.dropLast_append_of_ne_nil (by simp), List.map_dropLast]

/-- The mode of a directory grants all rights. -/
def OpenMode (mode : Nat) : Prop := mode &&& 0o700 = 0o700

theorem grants_of_openMode {mode : Nat} (opened : OpenMode mode) (privileged : Bool)
    {rights : Nat} (among : 0o700 &&& rights = rights) (time : Int) :
    (Posix.Entry.directory mode time : Posix.Entry (List UInt8)).grants privileged rights = true := by
  have granted : mode &&& rights = rights := by
    rw [← among, ← Nat.and_assoc, opened]
  rw [Posix.Entry.grants, Bool.or_eq_true, decide_eq_true_eq]
  exact .inr granted

variable (host home) in
/-- The disk is another one but for the home, and the home has these directories, whose modes and
times are allowed, these files, and nothing else. -/
structure HomeLayout (base : RestoreDisk Name) (directories : List JsString)
    (allowed : JsString → Nat → Int → Prop)
    (files : List (JsString × Posix.Entry (List UInt8))) (disk : RestoreDisk Name) : Prop where
  outside : ∀ other, ¬ host.homePlace home <+: other → disk.get other = base.get other
  isHome : ∃ time, disk.get (host.homePlace home) = some (.directory 0o700 time)
  own : ∀ path ∈ directories ++ files.map Prod.fst, IsRestorePath path
  isDirectory : ∀ path ∈ directories, ∃ mode time,
    disk.get (host.place home path) = some (.directory mode time) ∧ allowed path mode time
  isFile : ∀ file ∈ files,
    disk.get (host.place home file.1) = some file.2 ∧ file.2.isDirectory = false
  nothingElse : ∀ other, host.homePlace home <+: other → (disk.get other).isSome = true →
    other = host.homePlace home ∨
      ∃ path ∈ directories ++ files.map Prod.fst, other = host.place home path
  distinct : ((directories ++ files.map Prod.fst).map (host.place home)).Nodup

/-- The disk lets the home be made and removed, and has nothing at its place. -/
structure HomeFree (host : RestoreHost Name) (home : List JsString) (privileged : Bool)
    (disk : RestoreDisk Name) : Prop where
  changeable : disk.changeable privileged (host.homePlace home) = true
  absent : disk.get (host.homePlace home) = none

namespace HomeLayout

variable {privileged : Bool} {base disk next : RestoreDisk Name} {directories : List JsString}
  {allowed : JsString → Nat → Int → Prop} {files : List (JsString × Posix.Entry (List UInt8))}

theorem weaken (layout : HomeLayout host home base directories allowed files disk)
    {weaker : JsString → Nat → Int → Prop}
    (implied : ∀ path mode time, allowed path mode time → weaker path mode time) :
    HomeLayout host home base directories weaker files disk :=
  { layout with
    isDirectory := fun path listed =>
      let ⟨mode, time, found, isAllowed⟩ := layout.isDirectory path listed
      ⟨mode, time, found, implied path mode time isAllowed⟩ }

/-- The home has just been made. -/
theorem made {start : RestoreDisk Name} {now : Int} (free : HomeFree host home privileged start)
    (made : start.mkdir privileged (host.homePlace home) 0o700 now = some next) :
    HomeLayout host home next [] allowed [] next where
  outside _ _ := rfl
  isHome := ⟨now, by rw [Posix.Disk.get_add made, if_pos rfl]⟩
  own := by simp
  isDirectory := by simp
  isFile := by simp
  nothingElse := by
    intro other lower present
    refine .inl ?_
    by_contra different
    have absent : start.get other = none := by
      refine Posix.Disk.get_below_eq_none ?_ (mem_above.mpr ⟨lower, Ne.symm different⟩)
      rw [Posix.Disk.isDirectoryAt, free.absent]
      exact Bool.false_ne_true
    rw [Posix.Disk.get_add made, if_neg different, absent] at present
    split_ifs at present <;> cases present
  distinct := List.nodup_nil

/-- What is above the home lets it be searched. -/
theorem traversable_home (layout : HomeLayout host home base directories allowed files disk)
    (free : base.changeable privileged (host.homePlace home) = true) {other : List Name}
    (higher : other ∈ above (host.homePlace home)) :
    (disk.get other).any (Posix.Entry.grants privileged 0o100) = true := by
  have outside : ¬ host.homePlace home <+: other := fun lower =>
    (mem_above.mp higher).2 ((mem_above.mp higher).1.eq_of_length_le lower.length_le)
  rw [Posix.Disk.changeable, Bool.and_eq_true, Bool.and_eq_true] at free
  rw [layout.outside other outside]
  exact List.all_eq_true.mp free.1.2 other higher

/-- The place of a path can be reached and changed when what is above it grants all rights. -/
theorem changeable_place (layout : HomeLayout host home base directories allowed files disk)
    (free : base.changeable privileged (host.homePlace home) = true) {path : JsString}
    (own : IsRestorePath path)
    (opened : ∀ front ∈ above (path.splitOn slash), ∃ mode time,
      disk.get (host.homePlace home ++ front.map host.nameOf) = some (.directory mode time) ∧
        (privileged = true ∨ OpenMode mode)) :
    disk.traversable privileged (host.place home path) = true ∧
      disk.changeable privileged (host.place home path) = true := by
  have granted : ∀ front ∈ above (path.splitOn slash), ∀ rights, 0o700 &&& rights = rights →
      (disk.get (host.homePlace home ++ front.map host.nameOf)).any
        (Posix.Entry.grants privileged rights) = true := by
    intro front higher rights among
    obtain ⟨mode, time, found, either⟩ := opened front higher
    rw [found, Option.any_some]
    rcases either with rfl | opened
    · rfl
    · exact grants_of_openMode opened privileged among time
  have searched : disk.traversable privileged (host.place home path) = true := by
    refine List.all_eq_true.mpr fun other higher => ?_
    rcases (mem_above_place own).mp higher with outer | ⟨front, inner, rfl⟩
    · exact layout.traversable_home free outer
    · exact granted front inner _ rfl
  refine ⟨searched, ?_⟩
  obtain ⟨front, inner, parent⟩ := @dropLast_place _ host home path own
  have some : host.place home path ≠ [] := by
    rw [place_eq own]
    exact List.append_ne_nil_of_right_ne_nil _ (by simp)
  rw [Posix.Disk.changeable, searched, Bool.and_true, Bool.and_eq_true, parent]
  exact ⟨decide_eq_true some, granted front inner _ rfl⟩

/-- Making an entry changes nothing else but the time of the directory it is made in. -/
theorem get_of_added {path : JsString} {entry : Posix.Entry (List UInt8)} {now : Int}
    (own : IsRestorePath path)
    (added : disk.add privileged (host.place home path) entry now = some next) {other : List Name}
    (different : other ≠ host.place home path) :
    next.get other = disk.get other ∨ host.homePlace home <+: other ∧ ∃ mode time,
      disk.get other = some (.directory mode time) ∧ next.get other = some (.directory mode now) := by
  rw [Posix.Disk.get_add added, if_neg different]
  split_ifs with parent
  · refine .inr ⟨?_, ?_⟩
    · obtain ⟨front, _, same⟩ := @dropLast_place _ host home path own
      rw [parent, same]
      exact List.prefix_append _ _
    · have free := (Posix.Disk.add_isSome_iff.mp (Option.isSome_iff_exists.mpr ⟨next, added⟩)).1
      have some : host.place home path ≠ [] := by
        rw [Posix.Disk.changeable, Bool.and_eq_true, Bool.and_eq_true] at free
        exact of_decide_eq_true free.1.1
      have directory := Posix.Disk.isDirectoryAt_of_changeable free
        (List.dropLast_concat_getLast some).symm
      rw [← parent] at directory
      obtain ⟨mode, time, found⟩ := Posix.Disk.isDirectoryAt_iff.mp directory
      exact ⟨mode, time, found, by rw [found]; rfl⟩
  · exact .inl rfl

theorem present (layout : HomeLayout host home base directories allowed files disk)
    {path : JsString} (listed : path ∈ directories ++ files.map Prod.fst) :
    (disk.get (host.place home path)).isSome = true := by
  rcases List.mem_append.mp listed with directory | named
  · obtain ⟨mode, time, found, _⟩ := layout.isDirectory path directory
    rw [found, Option.isSome_some]
  · obtain ⟨file, member, rfl⟩ := List.mem_map.mp named
    rw [(layout.isFile file member).1, Option.isSome_some]

/-- What is made is made at a new place. -/
theorem fresh_of_added (layout : HomeLayout host home base directories allowed files disk)
    {path : JsString} {entry : Posix.Entry (List UInt8)} {now : Int}
    (added : disk.add privileged (host.place home path) entry now = some next) :
    ∀ other ∈ directories ++ files.map Prod.fst,
      host.place home other ≠ host.place home path := by
  intro other listed same
  have absent := (Posix.Disk.add_isSome_iff.mp (Option.isSome_iff_exists.mpr ⟨next, added⟩)).2
  have present := layout.present listed
  rw [same, absent] at present
  cases present

/-- The entries that are there stay when another one is made. -/
theorem kept_of_added (layout : HomeLayout host home base directories allowed files disk)
    (timeless : ∀ path mode time later, allowed path mode time → allowed path mode later)
    {path : JsString} {entry : Posix.Entry (List UInt8)} {now : Int} (own : IsRestorePath path)
    (added : disk.add privileged (host.place home path) entry now = some next) :
    (∀ other, ¬ host.homePlace home <+: other → next.get other = base.get other) ∧
      (∃ time, next.get (host.homePlace home) = some (.directory 0o700 time)) ∧
      (∀ other ∈ directories, ∃ mode time,
        next.get (host.place home other) = some (.directory mode time) ∧ allowed other mode time) ∧
      (∀ file ∈ files, next.get (host.place home file.1) = some file.2) ∧
      ∀ other, host.homePlace home <+: other → (next.get other).isSome = true →
        other = host.homePlace home ∨
          ∃ listed ∈ path :: (directories ++ files.map Prod.fst), other = host.place home listed := by
  have fresh := layout.fresh_of_added added
  refine ⟨?_, ?_, ?_, ?_, ?_⟩
  · intro other outside
    have different : other ≠ host.place home path := by
      rintro rfl
      exact outside (home_prefix_place own)
    rcases get_of_added own added different with same | ⟨lower, _⟩
    · rw [same, layout.outside other outside]
    · exact absurd lower outside
  · obtain ⟨time, found⟩ := layout.isHome
    rcases get_of_added own added (place_ne_home own).symm with same | ⟨_, mode, old, was, later⟩
    · exact ⟨time, same.trans found⟩
    · rw [found] at was
      cases was
      exact ⟨now, later⟩
  · intro other listed
    obtain ⟨mode, time, found, isAllowed⟩ := layout.isDirectory other listed
    rcases get_of_added own added (fresh other (List.mem_append_left _ listed)) with
      same | ⟨_, _, _, was, later⟩
    · exact ⟨mode, time, same.trans found, isAllowed⟩
    · rw [found] at was
      cases was
      exact ⟨mode, now, later, timeless _ _ _ _ isAllowed⟩
  · intro file listed
    obtain ⟨found, plain⟩ := layout.isFile file listed
    have member := List.mem_append_right directories (List.mem_map_of_mem (f := Prod.fst) listed)
    rcases get_of_added own added (fresh file.1 member) with same | ⟨_, _, _, was, _⟩
    · exact same.trans found
    · rw [found] at was
      rw [Option.some.inj was] at plain
      cases plain
  · intro other lower present
    by_cases same : other = host.place home path
    · exact .inr ⟨path, List.mem_cons_self, same⟩
    · have before : (disk.get other).isSome = true := by
        rcases get_of_added own added same with kept | ⟨_, _, _, was, _⟩
        · rwa [← kept]
        · rw [was, Option.isSome_some]
      rcases layout.nothingElse other lower before with isHome | ⟨listed, member, at'⟩
      · exact .inl isHome
      · exact .inr ⟨listed, List.mem_cons_of_mem _ member, at'⟩

/-- A directory is made. -/
theorem addDirectory (layout : HomeLayout host home base directories allowed files disk)
    (timeless : ∀ path mode time later, allowed path mode time → allowed path mode later)
    {path : JsString} {now : Int} (own : IsRestorePath path) (isAllowed : allowed path 0o700 now)
    (made : disk.mkdir privileged (host.place home path) 0o700 now = some next) :
    HomeLayout host home base (directories ++ [path]) allowed files next := by
  obtain ⟨outside, isHome, isDirectory, isFile, nothingElse⟩ :=
    layout.kept_of_added timeless own made
  have order : (directories ++ [path] ++ files.map Prod.fst).Perm
      (path :: (directories ++ files.map Prod.fst)) := by
    rw [List.append_assoc]
    exact List.perm_middle
  refine ⟨outside, isHome, ?_, ?_, ?_, ?_, ?_⟩
  · intro other listed
    rcases List.mem_cons.mp (order.mem_iff.mp listed) with rfl | earlier
    · exact own
    · exact layout.own other earlier
  · intro other listed
    rcases List.mem_append.mp listed with earlier | last
    · exact isDirectory other earlier
    · rw [List.mem_singleton.mp last]
      exact ⟨0o700, now, by rw [Posix.Disk.get_add made, if_pos rfl], isAllowed⟩
  · exact fun file listed => ⟨isFile file listed, (layout.isFile file listed).2⟩
  · intro other lower present
    rcases nothingElse other lower present with isHome | ⟨listed, member, at'⟩
    · exact .inl isHome
    · exact .inr ⟨listed, order.mem_iff.mpr member, at'⟩
  · rw [(order.map _).nodup_iff, List.map_cons, List.nodup_cons]
    refine ⟨?_, layout.distinct⟩
    intro taken
    obtain ⟨other, listed, same⟩ := List.mem_map.mp taken
    exact layout.fresh_of_added made other listed same

/-- A file is made. -/
theorem addFile (layout : HomeLayout host home base directories allowed files disk)
    (timeless : ∀ path mode time later, allowed path mode time → allowed path mode later)
    {path : JsString} {bytes : List UInt8} {mode : Nat} {now : Int} (own : IsRestorePath path)
    (made : disk.create privileged (host.place home path) bytes mode now = some next) :
    HomeLayout host home base directories allowed (files ++ [(path, .file bytes mode now)]) next := by
  obtain ⟨outside, isHome, isDirectory, isFile, nothingElse⟩ :=
    layout.kept_of_added timeless own made
  have order : (directories ++ (files ++ [(path, Posix.Entry.file bytes mode now)]).map
      Prod.fst).Perm (path :: (directories ++ files.map Prod.fst)) := by
    rw [List.map_append, ← List.append_assoc]
    exact List.perm_append_comm
  refine ⟨outside, isHome, ?_, isDirectory, ?_, ?_, ?_⟩
  · intro other listed
    rcases List.mem_cons.mp (order.mem_iff.mp listed) with rfl | earlier
    · exact own
    · exact layout.own other earlier
  · intro file listed
    rcases List.mem_append.mp listed with earlier | last
    · exact ⟨isFile file earlier, (layout.isFile file earlier).2⟩
    · rw [List.mem_singleton.mp last]
      exact ⟨by rw [Posix.Disk.get_add made, if_pos rfl], rfl⟩
  · intro other lower present
    rcases nothingElse other lower present with isHome | ⟨listed, member, at'⟩
    · exact .inl isHome
    · exact .inr ⟨listed, order.mem_iff.mpr member, at'⟩
  · rw [(order.map _).nodup_iff, List.map_cons, List.nodup_cons]
    refine ⟨?_, layout.distinct⟩
    intro taken
    obtain ⟨other, listed, same⟩ := List.mem_map.mp taken
    exact layout.fresh_of_added made other listed same

/-- The mode or the times of a directory are changed. -/
theorem updateDirectory (layout : HomeLayout host home base directories allowed files disk)
    {later : JsString → Nat → Int → Prop} {path : JsString}
    {edit : Posix.Entry (List UInt8) → Posix.Entry (List UInt8)}
    {kind : ∀ entry, (edit entry).isDirectory = entry.isDirectory} (listed : path ∈ directories)
    (updated : disk.update privileged (host.place home path) edit kind = some next)
    (others : ∀ other mode time, other ≠ path → allowed other mode time → later other mode time)
    (changed : ∀ mode time, allowed path mode time → ∃ mode' time',
      edit (.directory mode time) = .directory mode' time' ∧ later path mode' time') :
    HomeLayout host home base directories later files next := by
  have member := List.mem_append_left (files.map Prod.fst) listed
  have own := layout.own path member
  have places : ∀ other ∈ directories ++ files.map Prod.fst, other ≠ path →
      host.place home other ≠ host.place home path := by
    intro other also different same
    exact different (List.inj_on_of_nodup_map layout.distinct also member same)
  have same : ∀ other, other ≠ host.place home path → next.get other = disk.get other := by
    intro other different
    rw [Posix.Disk.get_update updated, if_neg different]
  refine ⟨?_, ?_, layout.own, ?_, ?_, ?_, layout.distinct⟩
  · intro other outside
    rw [same other, layout.outside other outside]
    rintro rfl
    exact outside (home_prefix_place own)
  · rw [same _ (place_ne_home own).symm]
    exact layout.isHome
  · intro other also
    obtain ⟨mode, time, found, isAllowed⟩ := layout.isDirectory other also
    by_cases this : other = path
    · subst this
      obtain ⟨mode', time', edited, isLater⟩ := changed mode time isAllowed
      refine ⟨mode', time', ?_, isLater⟩
      rw [Posix.Disk.get_update updated, if_pos rfl, found, Option.map_some, edited]
    · refine ⟨mode, time, ?_, others other mode time this isAllowed⟩
      rw [same _ (places other (List.mem_append_left _ also) this), found]
  · intro file also
    have inside := List.mem_append_right directories (List.mem_map_of_mem (f := Prod.fst) also)
    refine ⟨?_, (layout.isFile file also).2⟩
    rw [same _ (places file.1 inside ?_), (layout.isFile file also).1]
    rintro rfl
    exact (List.nodup_append.mp (List.Nodup.of_map _ layout.distinct)).2.2 _ listed _
      (List.mem_map_of_mem (f := Prod.fst) also) rfl
  · intro other lower present
    rw [Posix.Disk.get_update updated] at present
    refine layout.nothingElse other lower ?_
    split_ifs at present
    · rwa [Option.isSome_map] at present
    · exact present

/-- The mode or the times of the last file are changed. -/
theorem updateFile {file : JsString × Posix.Entry (List UInt8)}
    (layout : HomeLayout host home base directories allowed (files ++ [file]) disk)
    {edit : Posix.Entry (List UInt8) → Posix.Entry (List UInt8)}
    {kind : ∀ entry, (edit entry).isDirectory = entry.isDirectory}
    (updated : disk.update privileged (host.place home file.1) edit kind = some next) :
    HomeLayout host home base directories allowed (files ++ [(file.1, edit file.2)]) next := by
  have names : (files ++ [(file.1, edit file.2)]).map Prod.fst = (files ++ [file]).map Prod.fst := by
    simp
  have member : file.1 ∈ directories ++ (files ++ [file]).map Prod.fst := by
    simp
  have own := layout.own file.1 member
  have places : ∀ other ∈ directories ++ files.map Prod.fst,
      host.place home other ≠ host.place home file.1 := by
    have distinct : ((directories ++ files.map Prod.fst ++ [file.1]).map
        (host.place home)).Nodup := by
      have distinct := layout.distinct
      rwa [@List.map_append _ _ Prod.fst, ← List.append_assoc] at distinct
    rw [List.map_append] at distinct
    intro other also same
    exact (List.nodup_append.mp distinct).2.2 _ (List.mem_map_of_mem also) _ (by simp) same
  have same : ∀ other, other ≠ host.place home file.1 → next.get other = disk.get other := by
    intro other different
    rw [Posix.Disk.get_update updated, if_neg different]
  refine ⟨?_, ?_, names ▸ layout.own, ?_, ?_, ?_, names ▸ layout.distinct⟩
  · intro other outside
    rw [same other, layout.outside other outside]
    rintro rfl
    exact outside (home_prefix_place own)
  · rw [same _ (place_ne_home own).symm]
    exact layout.isHome
  · intro other also
    rw [same _ (places other (List.mem_append_left _ also))]
    exact layout.isDirectory other also
  · intro other also
    rcases List.mem_append.mp also with earlier | last
    · rw [same _ (places other.1 (List.mem_append_right _ (List.mem_map_of_mem earlier)))]
      exact layout.isFile other (List.mem_append_left _ earlier)
    · obtain ⟨found, plain⟩ := layout.isFile file (by simp)
      rw [List.mem_singleton.mp last]
      refine ⟨?_, (kind file.2).trans plain⟩
      rw [Posix.Disk.get_update updated, if_pos rfl, found, Option.map_some]
  · intro other lower present
    rw [names]
    rw [Posix.Disk.get_update updated] at present
    refine layout.nothingElse other lower ?_
    split_ifs at present
    · rwa [Option.isSome_map] at present
    · exact present

end HomeLayout

end Places

end Kb1Daemon
