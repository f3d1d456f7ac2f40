import Kb1Daemon.Snapshot.HomeLayout

/-! # The calls of a restore

The calls that make the entries leave a home in which every directory grants its rights, whether
or not they all succeed; they fail without a fault of the environment only when two paths have one
place or a file is not what the manifest says (`establishes_creation`). The calls that finish the
directories fail without a fault only when one of them has taken away the rights on a directory
that is not empty (`establishes_finish`).
-/

universe u

namespace Kb1Daemon

open JsString StoppingRun
open Posix (above mem_above)

variable {Name : Type u} [DecidableEq Name] {host : RestoreHost Name}
  {environment : RestoreEnvironment} {home : List JsString}

section Calls

variable {index : Nat} {disk next : RestoreDisk Name} {result : Option (RestoreDisk Name)}
  {failure : RestoreFailure}

theorem attemptCall_faulty (fault : (environment.fault index).isSome = true) :
    attemptCall environment index disk result = (disk, some .call) := by
  unfold attemptCall
  exact if_pos fault

theorem attemptCall_faultless (faultless : environment.fault index = none) :
    attemptCall environment index disk (some next) = (next, none) := by
  unfold attemptCall
  rw [faultless]
  rfl

/-- A call that is done had no fault. -/
theorem attemptCall_done (done : attemptCall environment index disk result = (next, none)) :
    environment.fault index = none ∧ result = some next := by
  unfold attemptCall at done
  split_ifs at done with faulty
  · cases done
  · cases result with
    | none => cases done
    | some made =>
        cases done
        exact ⟨Option.not_isSome_iff_eq_none.mp faulty, rfl⟩

theorem attemptCall_failed
    (failed : attemptCall environment index disk result = (next, some failure)) :
    next = disk ∧ (environment.fault index = none → result = none) := by
  unfold attemptCall at failed
  split_ifs at failed with faulty
  · cases failed
    refine ⟨rfl, fun faultless => ?_⟩
    rw [faultless] at faulty
    cases faulty
  · cases result with
    | none =>
        cases failed
        exact ⟨rfl, fun _ => rfl⟩
    | some made => cases failed

/-- The stream of a file can be read to its end and has the content of the manifest. -/
def Verified (host : RestoreHost Name) (file : ManifestFile × Option ZipStream) : Prop :=
  ∃ stream, file.2 = some stream ∧ stream.complete = true ∧
    file.1.verifies host stream.bytes = true

/-- The bytes that are read of a file. -/
def fileBytes (file : ManifestFile × Option ZipStream) : List UInt8 :=
  (file.2.map ZipStream.bytes).getD []

theorem writeFile_done {file : ManifestFile × Option ZipStream}
    (done : performCall host environment home index disk (.writeFile file.1 file.2) = (next, none)) :
    Verified host file ∧
      disk.create environment.privileged (host.place home file.1.restorePath) (fileBytes file) 0o600
        (environment.now index) = some next := by
  obtain ⟨file, stream⟩ := file
  unfold performCall at done
  cases stream with
  | none => cases done
  | some stream =>
      dsimp only at done
      by_cases refused : environment.fault index = some .refused
      · rw [if_pos refused] at done
        cases done
      · rw [if_neg refused] at done
        split at done
        · cases done
        · rename_i made created
          split_ifs at done with broken other
          · cases done
          · cases done
          cases done
          have faultless : environment.fault index = none := by
            cases fault : environment.fault index with
            | none => rfl
            | some kind =>
                cases kind with
                | refused => exact absurd fault refused
                | cut count =>
                    rw [fault] at broken
                    exact absurd rfl broken
          rw [faultless] at broken other created
          refine ⟨⟨stream, rfl, ?_, ?_⟩, created⟩
          · simpa [ZipStream.written] using broken
          · simpa [ZipStream.written] using other

theorem writeFile_failed {file : ManifestFile × Option ZipStream}
    (failed : performCall host environment home index disk (.writeFile file.1 file.2) =
      (next, some failure)) :
    (next = disk ∨ ∃ bytes, disk.create environment.privileged
        (host.place home file.1.restorePath) bytes 0o600 (environment.now index) = some next) ∧
      (environment.fault index = none → Verified host file →
        disk.create environment.privileged (host.place home file.1.restorePath) (fileBytes file)
          0o600 (environment.now index) = none) := by
  obtain ⟨file, stream⟩ := file
  unfold performCall at failed
  cases stream with
  | none =>
      cases failed
      refine ⟨.inl rfl, ?_⟩
      rintro _ ⟨stream, none, _⟩
      cases none
  | some stream =>
      dsimp only at failed
      by_cases refused : environment.fault index = some .refused
      · rw [if_pos refused] at failed
        cases failed
        refine ⟨.inl rfl, fun faultless => ?_⟩
        rw [faultless] at refused
        cases refused
      · rw [if_neg refused] at failed
        split at failed
        · rename_i absent
          cases failed
          refine ⟨.inl rfl, fun faultless _ => ?_⟩
          rw [faultless] at absent
          exact absent
        · rename_i made created
          by_cases broken : (!(stream.written (environment.fault index)).2) = true
          · rw [if_pos broken] at failed
            cases failed
            refine ⟨.inr ⟨_, created⟩, ?_⟩
            rintro faultless ⟨_, same, complete, _⟩
            cases same
            rw [faultless] at broken
            simp [ZipStream.written, complete] at broken
          · rw [if_neg broken] at failed
            split_ifs at failed with other
            case neg => cases failed
            cases failed
            refine ⟨.inr ⟨_, created⟩, ?_⟩
            rintro faultless ⟨_, same, _, verified⟩
            cases same
            rw [faultless] at other
            simp [ZipStream.written, verified] at other

end Calls

/-- A mode that a directory is made with. -/
def Bare (_ : JsString) (mode : Nat) (_ : Int) : Prop := mode = 0o700

namespace HomeLayout

variable {privileged : Bool} {base disk : RestoreDisk Name} {directories : List JsString}
  {allowed : JsString → Nat → Int → Prop} {files : List (JsString × Posix.Entry (List UInt8))}

/-- A locked directory of the home is one whose mode does not grant all rights and which has an
entry of the home in it. -/
theorem of_locked (layout : HomeLayout host home base directories allowed files disk)
    {other : List Name} (lower : host.homePlace home <+: other)
    (locked : disk.locked privileged other = true) :
    privileged = false ∧ ∃ path ∈ directories, ∃ mode time, allowed path mode time ∧
      ¬OpenMode mode ∧ ∃ entry ∈ directories ++ files.map Prod.fst,
        host.place home path ∈ above (host.place home entry) := by
  obtain ⟨⟨directory, refused⟩, entry, below, present⟩ := Posix.Disk.locked_iff.mp locked
  obtain ⟨mode, time, found⟩ := Posix.Disk.isDirectoryAt_iff.mp directory
  rw [found, Option.any_some, Posix.Entry.grants, Bool.or_eq_false_iff,
    decide_eq_false_iff_not] at refused
  refine ⟨refused.1, ?_⟩
  have inHome : ∃ listed ∈ directories ++ files.map Prod.fst,
      entry = host.place home listed := by
    have whole := lower.trans (mem_above.mp below).1
    rcases layout.nothingElse entry whole present with rfl | listed
    · exact absurd ((mem_above.mp below).1.eq_of_length_le lower.length_le) (mem_above.mp below).2
    · exact listed
  obtain ⟨listed, member, rfl⟩ := inHome
  rcases layout.nothingElse other lower (by rw [found, Option.isSome_some]) with
    rfl | ⟨path, inside, rfl⟩
  · obtain ⟨_, made⟩ := layout.isHome
    rw [found] at made
    cases made
    exact absurd rfl refused.2
  · rcases List.mem_append.mp inside with isDirectory | named
    · obtain ⟨mode', time', found', isAllowed⟩ := layout.isDirectory path isDirectory
      rw [found] at found'
      cases found'
      exact ⟨path, isDirectory, mode, time, isAllowed, refused.2, listed, member, below⟩
    · obtain ⟨file, inFiles, rfl⟩ := List.mem_map.mp named
      obtain ⟨found', plain⟩ := layout.isFile file inFiles
      rw [found] at found'
      rw [← Option.some.inj found'] at plain
      cases plain

/-- The home itself and the directories that are made grant all rights. -/
theorem opened_above (layout : HomeLayout host home base directories allowed files disk)
    {path : JsString} (own : IsRestorePath path)
    (parents : ∀ front ∈ above (path.splitOn slash), front ≠ [] →
      Segments.joined slash front ∈ directories)
    (opened : ∀ front ∈ above (path.splitOn slash), front ≠ [] → ∀ mode time,
      allowed (Segments.joined slash front) mode time → privileged = true ∨ OpenMode mode) :
    ∀ front ∈ above (path.splitOn slash), ∃ mode time,
      disk.get (host.homePlace home ++ front.map host.nameOf) = some (.directory mode time) ∧
        (privileged = true ∨ OpenMode mode) := by
  intro front higher
  by_cases none : front = []
  · obtain ⟨time, found⟩ := layout.isHome
    rw [none, List.map_nil, List.append_nil]
    exact ⟨_, time, found, .inr rfl⟩
  · obtain ⟨mode, time, found, isAllowed⟩ := layout.isDirectory _ (parents front higher none)
    rw [place_front own none (mem_above.mp higher).1] at found
    exact ⟨mode, time, found, opened front higher none mode time isAllowed⟩

end HomeLayout

variable (host home) in
/-- What lets all entries of a plan be made: no two paths have one place, and every file has the
content of the manifest. -/
structure RestorePlan.Creatable (plan : RestorePlan) : Prop where
  distinct : (plan.created.map (host.place home)).Nodup
  verified : ∀ file ∈ plan.files, Verified host file

variable (host home) in
/-- A state in which the home can be removed: nothing else is changed, the home is there, and no
directory in it is locked. -/
structure Recoverable (privileged : Bool) (base disk : RestoreDisk Name) : Prop where
  outside : ∀ other, ¬ host.homePlace home <+: other → disk.get other = base.get other
  isHome : (disk.get (host.homePlace home)).isSome = true
  unlocked : ∀ other, host.homePlace home <+: other → disk.locked privileged other = false

section Creation

variable {plan : RestorePlan} {base disk : RestoreDisk Name} {directories : List JsString}
  {files : List (JsString × Posix.Entry (List UInt8))}

theorem HomeLayout.recoverable {allowed : JsString → Nat → Int → Prop} {privileged : Bool}
    (layout : HomeLayout host home base directories allowed files disk)
    (opened : privileged = false → ∀ path ∈ directories, ∀ mode time, allowed path mode time →
      OpenMode mode ∨ ∀ entry ∈ directories ++ files.map Prod.fst,
        host.place home path ∉ above (host.place home entry)) :
    Recoverable host home privileged base disk where
  outside := layout.outside
  isHome := by
    obtain ⟨time, found⟩ := layout.isHome
    rw [found, Option.isSome_some]
  unlocked other lower := by
    rw [← Bool.not_eq_true]
    intro locked
    obtain ⟨user, path, member, mode, time, isAllowed, closed, entry, listed, below⟩ :=
      layout.of_locked lower locked
    rcases opened user path member mode time isAllowed with granting | empty
    · exact closed granting
    · exact empty entry listed below

theorem HomeLayout.recoverable_of_bare {privileged : Bool}
    (layout : HomeLayout host home base directories Bare files disk) :
    Recoverable host home privileged base disk :=
  layout.recoverable fun _ _ _ _ _ bare => .inl (by rw [bare]; rfl)

theorem bare_timeless (path : JsString) (mode : Nat) (time later : Int) (bare : Bare path mode time) :
    Bare path mode later := bare

variable (host environment home plan base) in
/-- A failure while the entries are made. -/
def CreationFailed (index : Nat) (disk : RestoreDisk Name) : Prop :=
  Recoverable host home environment.privileged base disk ∧
    (environment.fault index = none → ¬ plan.Creatable host home)

/-- A directory or a file can be made when the directories above it are there, unless its place
is taken. -/
theorem place_taken (layout : HomeLayout host home base directories Bare files disk)
    (free : base.changeable environment.privileged (host.homePlace home) = true) {path : JsString}
    (own : IsRestorePath path)
    (parents : ∀ front ∈ above (path.splitOn slash), front ≠ [] →
      Segments.joined slash front ∈ directories) {entry : Posix.Entry (List UInt8)} {now : Int}
    (refused : disk.add environment.privileged (host.place home path) entry now = none) :
    ∃ other ∈ directories ++ files.map Prod.fst,
      host.place home other = host.place home path := by
  have changeable := (layout.changeable_place free own (layout.opened_above own parents
    fun _ _ _ _ _ bare => .inr (by rw [bare]; rfl))).2
  have present : (disk.get (host.place home path)).isSome = true := by
    rw [Option.isSome_iff_ne_none]
    intro absent
    have added : (disk.add environment.privileged (host.place home path) entry now).isSome = true :=
      Posix.Disk.add_isSome_iff.mpr ⟨changeable, absent⟩
    rw [refused] at added
    cases added
  rcases layout.nothingElse _ (home_prefix_place own) present with isHome | ⟨other, listed, same⟩
  · exact absurd isHome (place_ne_home own)
  · exact ⟨other, listed, same.symm⟩

omit [DecidableEq Name] in
/-- A place is taken only when two paths have it. -/
theorem not_creatable {done rest : List JsString} {path other : JsString}
    (created : plan.created = done ++ path :: rest) (listed : other ∈ done)
    (same : host.place home other = host.place home path) : ¬ plan.Creatable host home := by
  intro creatable
  have distinct := creatable.distinct
  rw [created, List.map_append, List.map_cons] at distinct
  exact (List.nodup_append.mp distinct).2.2 _ (List.mem_map_of_mem listed) _ List.mem_cons_self same

/-- The parents of a directory are made before it. -/
theorem RestorePlan.Checked.parents_done (checked : plan.Checked) {done rest : List JsString}
    {path : JsString} (paths : plan.paths = done ++ path :: rest) :
    ∀ front ∈ above (path.splitOn slash), front ≠ [] → Segments.joined slash front ∈ done := by
  intro front higher some
  have listed : path ∈ plan.created := List.mem_append_left _ (by rw [paths]; simp)
  have own := checked.own path listed
  obtain ⟨inner, different⟩ := mem_above.mp higher
  have parent := checked.parents path listed front higher some
  have shallower : pathDepth (Segments.joined slash front) < pathDepth path := by
    unfold pathDepth
    rw [own.splitOn_front some inner]
    exact lt_of_le_of_ne inner.length_le fun same => different (inner.eq_of_length same)
  have ordered := checked.ordered
  rw [paths] at parent ordered
  rcases List.mem_append.mp parent with earlier | later
  · exact earlier
  · rcases List.mem_cons.mp later with same | later
    · rw [same] at shallower
      exact absurd shallower (lt_irrefl _)
    · have deeper := (List.pairwise_cons.mp (List.pairwise_append.mp ordered).2.1).1 _ later
      omega

/-- The directories are made. -/
theorem establishes_directories (checked : plan.Checked)
    (free : base.changeable environment.privileged (host.homePlace home) = true) :
    Establishes (performCall host environment home) (HomeLayout host home base [] Bare [])
      (plan.paths.map .makeDirectory) (HomeLayout host home base plan.paths Bare [])
      (CreationFailed host environment home plan base) := by
  rw [List.map_eq_flatMap]
  refine @Establishes.forEach _ _ _ _ _ _ _ _ (fun done => HomeLayout host home base done Bare [])
    fun done path rest paths => ?_
  have listed : path ∈ plan.created := List.mem_append_left _ (by rw [paths]; simp)
  have own := checked.own path listed
  have parents := checked.parents_done paths
  refine Establishes.single ?_ ?_
  · intro index disk next layout performed
    exact layout.addDirectory bare_timeless own rfl (attemptCall_done performed).2
  · intro index disk next failure layout performed
    obtain ⟨rfl, refused⟩ := attemptCall_failed performed
    refine ⟨layout.recoverable_of_bare, fun faultless => ?_⟩
    obtain ⟨other, inside, same⟩ := place_taken layout free own parents (refused faultless)
    rw [List.map_nil, List.append_nil] at inside
    have created : plan.created =
        done ++ path :: (rest ++ plan.files.map fun file => file.1.restorePath) := by
      rw [RestorePlan.created, paths]
      simp
    exact not_creatable created inside same

/-- A file as the restore leaves it. -/
def restoredFile (file : ManifestFile × Option ZipStream) :
    JsString × Posix.Entry (List UInt8) :=
  (file.1.restorePath, .file (fileBytes file) (file.1.mode % 512) file.1.modifiedAt)

variable (host home plan base) in
/-- The files that are made so far, with the content of the manifest. -/
def FilesMade (done : List (ManifestFile × Option ZipStream)) (disk : RestoreDisk Name) : Prop :=
  HomeLayout host home base plan.paths Bare (done.map restoredFile) disk ∧
    ∀ file ∈ done, Verified host file

variable (host home plan base) in
/-- A file is made, but does not have its mode and its time yet. -/
def FileWritten (done : List (ManifestFile × Option ZipStream))
    (file : ManifestFile × Option ZipStream) (mode : Nat) (disk : RestoreDisk Name) : Prop :=
  (∃ time, HomeLayout host home base plan.paths Bare
      (done.map restoredFile ++ [(file.1.restorePath, .file (fileBytes file) mode time)]) disk) ∧
    ∀ other ∈ done ++ [file], Verified host other

/-- The mode and the times of a file that is made can be changed. -/
theorem update_of_written (checked : plan.Checked)
    (free : base.changeable environment.privileged (host.homePlace home) = true)
    {file : JsString × Posix.Entry (List UInt8)} (listed : file ∈ files)
    (created : file.1 ∈ plan.created)
    (layout : HomeLayout host home base plan.paths Bare files disk)
    {edit : Posix.Entry (List UInt8) → Posix.Entry (List UInt8)}
    {kind : ∀ entry, (edit entry).isDirectory = entry.isDirectory} :
    disk.update environment.privileged (host.place home file.1) edit kind ≠ none := by
  intro refused
  have reached := (layout.changeable_place free (checked.own _ created) (layout.opened_above
    (checked.own _ created) (checked.parents _ created)
    fun _ _ _ _ _ bare => .inr (by rw [bare]; rfl))).1
  have present := layout.present (List.mem_append_right plan.paths
    (List.mem_map_of_mem (f := Prod.fst) listed))
  have updated : (disk.update environment.privileged (host.place home file.1) edit kind).isSome =
      true := Posix.Disk.update_isSome_iff.mpr ⟨reached, present⟩
  rw [refused] at updated
  cases updated

/-- A file is made. -/
theorem establishes_file (checked : plan.Checked)
    (free : base.changeable environment.privileged (host.homePlace home) = true)
    {done rest : List (ManifestFile × Option ZipStream)} {file : ManifestFile × Option ZipStream}
    (listed : plan.files = done ++ file :: rest) :
    Establishes (performCall host environment home) (FilesMade host home plan base done)
      (RestorePlan.fileCalls file) (FilesMade host home plan base (done ++ [file]))
      (CreationFailed host environment home plan base) := by
  have created : file.1.restorePath ∈ plan.created := by
    refine List.mem_append_right _ ?_
    rw [listed]
    simp
  have own := checked.own _ created
  have parents := checked.parents _ created
  have split : plan.created = (plan.paths ++ done.map fun file => file.1.restorePath) ++
      file.1.restorePath :: rest.map fun file => file.1.restorePath := by
    rw [RestorePlan.created, listed]
    simp
  refine @Establishes.cons _ _ _ _ _ (FileWritten host home plan base done file 0o600) _ _ _ _
    ?_ (@Establishes.cons _ _ _ _ _ (FileWritten host home plan base done file
      (file.1.mode % 512)) _ _ _ _ ?_ ?_)
  · refine Establishes.single ?_ ?_
    · rintro index disk next ⟨layout, verified⟩ performed
      obtain ⟨isVerified, made⟩ := writeFile_done performed
      refine ⟨⟨_, layout.addFile bare_timeless own made⟩, ?_⟩
      intro other member
      rcases List.mem_append.mp member with earlier | last
      · exact verified other earlier
      · rwa [List.mem_singleton.mp last]
    · rintro index disk next failure ⟨layout, _⟩ performed
      obtain ⟨partly, refused⟩ := writeFile_failed performed
      refine ⟨?_, fun faultless creatable => ?_⟩
      · rcases partly with rfl | ⟨bytes, made⟩
        · exact layout.recoverable_of_bare
        · exact (layout.addFile bare_timeless own made).recoverable_of_bare
      · have isVerified := creatable.verified file (by rw [listed]; simp)
        obtain ⟨other, inside, same⟩ :=
          place_taken layout free own parents (refused faultless isVerified)
        refine not_creatable split ?_ same creatable
        simpa [restoredFile] using inside
  · refine Establishes.single ?_ ?_
    · rintro index disk next ⟨⟨time, layout⟩, verified⟩ performed
      exact ⟨⟨time, layout.updateFile (attemptCall_done performed).2⟩, verified⟩
    · rintro index disk next failure ⟨⟨time, layout⟩, _⟩ performed
      obtain ⟨rfl, refused⟩ := attemptCall_failed performed
      refine ⟨layout.recoverable_of_bare, fun faultless => ?_⟩
      exact absurd (refused faultless) (update_of_written checked free
        (List.mem_append_right _ (List.mem_singleton_self _)) created layout)
  · refine Establishes.single ?_ ?_
    · rintro index disk next ⟨⟨time, layout⟩, verified⟩ performed
      refine ⟨?_, verified⟩
      rw [List.map_append]
      exact layout.updateFile (attemptCall_done performed).2
    · rintro index disk next failure ⟨⟨time, layout⟩, _⟩ performed
      obtain ⟨rfl, refused⟩ := attemptCall_failed performed
      refine ⟨layout.recoverable_of_bare, fun faultless => ?_⟩
      exact absurd (refused faultless) (update_of_written checked free
        (List.mem_append_right _ (List.mem_singleton_self _)) created layout)

/-- **The entries are made**, or a failure leaves a home that can be removed. -/
theorem establishes_creation (checked : plan.Checked)
    (free : base.changeable environment.privileged (host.homePlace home) = true) :
    Establishes (performCall host environment home) (HomeLayout host home base [] Bare [])
      plan.creation (FilesMade host home plan base plan.files)
      (CreationFailed host environment home plan base) := by
  refine (establishes_directories checked free).append ?_
  refine (Establishes.forEach fun done file rest listed =>
    establishes_file checked free listed).weaken ?_ (fun _ made => made) fun _ _ failed => failed
  exact fun disk layout => ⟨layout, by simp⟩

end Creation

section Finish

variable {plan : RestorePlan} {base disk : RestoreDisk Name}

/-- The directories that are done have their modes and times, and the others the mode they were
made with. -/
def Finishing (done : List PathMetadata) (path : JsString) (mode : Nat) (time : Int) : Prop :=
  (∃ item ∈ done, item.restorePath = path ∧ mode = item.mode % 512 ∧ time = item.modifiedAt) ∨
    (∀ item ∈ done, item.restorePath ≠ path) ∧ mode = 0o700

/-- A directory has its mode, but not its time yet. -/
def ChangingMode (done : List PathMetadata) (item : PathMetadata) (path : JsString) (mode : Nat)
    (time : Int) : Prop :=
  path = item.restorePath ∧ mode = item.mode % 512 ∨
    path ≠ item.restorePath ∧ Finishing done path mode time

variable (host home plan) in
/-- An item whose mode does not grant all rights on a directory that is not empty. -/
def RestorePlan.Restrictive (item : PathMetadata) : Prop :=
  ¬OpenMode (item.mode % 512) ∧
    ∃ path ∈ plan.created, host.place home item.restorePath ∈ above (host.place home path)

/-- What does not grant all rights is the mode of one of the items. -/
def ModesOf (items : List PathMetadata) (allowed : JsString → Nat → Int → Prop) : Prop :=
  ∀ path mode time, allowed path mode time →
    OpenMode mode ∨ ∃ item ∈ items, item.restorePath = path ∧ mode = item.mode % 512

theorem modesOf_finishing (done : List PathMetadata) : ModesOf done (Finishing done) := by
  rintro path mode time (⟨item, member, same, isMode, _⟩ | ⟨_, bare⟩)
  · exact .inr ⟨item, member, same, isMode⟩
  · exact .inl (by rw [bare]; rfl)

theorem modesOf_changingMode (done : List PathMetadata) (item : PathMetadata) :
    ModesOf (done ++ [item]) (ChangingMode done item) := by
  rintro path mode time (⟨same, isMode⟩ | ⟨_, finishing⟩)
  · exact .inr ⟨item, by simp, same.symm, isMode⟩
  · rcases modesOf_finishing done path mode time finishing with opened | ⟨other, member, named⟩
    · exact .inl opened
    · exact .inr ⟨other, List.mem_append_left _ member, named⟩

variable (host environment home plan) in
/-- One of the items takes away rights that are needed. -/
def SomeRestrictive (items : List PathMetadata) : Prop :=
  environment.privileged = false ∧ ∃ item ∈ items, plan.Restrictive host home item

variable {allowed : JsString → Nat → Int → Prop} {items : List PathMetadata}

theorem created_eq_layout (plan : RestorePlan) :
    plan.paths ++ (plan.files.map restoredFile).map Prod.fst = plan.created := by
  rw [RestorePlan.created, List.map_map]
  rfl

/-- Without an item that takes away rights, what is in the home can be changed. -/
theorem update_of_modes (checked : plan.Checked)
    (free : base.changeable environment.privileged (host.homePlace home) = true)
    (layout : HomeLayout host home base plan.paths allowed (plan.files.map restoredFile) disk)
    (modes : ModesOf items allowed) {path : JsString} (listed : path ∈ plan.paths)
    {edit : Posix.Entry (List UInt8) → Posix.Entry (List UInt8)}
    {kind : ∀ entry, (edit entry).isDirectory = entry.isDirectory}
    (refused : disk.update environment.privileged (host.place home path) edit kind = none) :
    SomeRestrictive host environment home plan items := by
  have created : path ∈ plan.created := List.mem_append_left _ listed
  have own := checked.own path created
  by_contra unrestricted
  have opened := @HomeLayout.opened_above _ _ _ _ environment.privileged _ _ _ _ _ layout _ own
    (checked.parents path created) (by
      intro front higher some mode time isAllowed
      by_contra closed
      rw [not_or, Bool.not_eq_true] at closed
      obtain ⟨item, member, same, rfl⟩ := (modes _ mode time isAllowed).resolve_left closed.2
      refine unrestricted ⟨closed.1, item, member, closed.2, path, created, ?_⟩
      rw [same, place_front own some (mem_above.mp higher).1]
      exact (mem_above_place own).mpr (.inr ⟨front, higher, rfl⟩))
  have reached := (layout.changeable_place free own opened).1
  have updated : (disk.update environment.privileged (host.place home path) edit kind).isSome =
      true := Posix.Disk.update_isSome_iff.mpr ⟨reached, layout.present
        (List.mem_append_left _ listed)⟩
  rw [refused] at updated
  cases updated

variable (host environment home plan base) in
/-- A failure while the directories are finished. -/
def FinishFailed (items : List PathMetadata) (index : Nat) (disk : RestoreDisk Name) : Prop :=
  (¬ SomeRestrictive host environment home plan items →
    Recoverable host home environment.privileged base disk) ∧
  (∀ other, ¬ host.homePlace home <+: other → disk.get other = base.get other) ∧
  (environment.fault index = none → SomeRestrictive host environment home plan items)

theorem recoverable_of_modes
    (layout : HomeLayout host home base plan.paths allowed (plan.files.map restoredFile) disk)
    (modes : ModesOf items allowed)
    (unrestricted : ¬ SomeRestrictive host environment home plan items) :
    Recoverable host home environment.privileged base disk := by
  refine layout.recoverable fun user path _ mode time isAllowed => ?_
  by_contra closed
  rw [not_or] at closed
  obtain ⟨item, member, rfl, rfl⟩ := (modes path mode time isAllowed).resolve_left closed.1
  refine closed.2 fun entry listed below => unrestricted ⟨user, item, member, closed.1, entry, ?_, below⟩
  rwa [created_eq_layout] at listed

theorem finishFailed_of_modes
    (layout : HomeLayout host home base plan.paths allowed (plan.files.map restoredFile) disk)
    (modes : ModesOf items allowed) {all : List PathMetadata} (among : items ⊆ all) {index : Nat}
    (faultless : environment.fault index = none →
      SomeRestrictive host environment home plan items) :
    FinishFailed host environment home plan base all index disk := by
  have wider : SomeRestrictive host environment home plan items →
      SomeRestrictive host environment home plan all :=
    fun ⟨user, item, member, restrictive⟩ => ⟨user, item, among member, restrictive⟩
  exact ⟨fun unrestricted => recoverable_of_modes layout modes fun some => unrestricted (wider some),
    layout.outside, fun none => wider (faultless none)⟩

variable (host home plan base) in
/-- The directories that are done have their modes and times. -/
def DirectoriesFinished (done : List PathMetadata) (disk : RestoreDisk Name) : Prop :=
  HomeLayout host home base plan.paths (Finishing done) (plan.files.map restoredFile) disk

/-- The mode of a directory is changed. -/
theorem establishes_changeMode (checked : plan.Checked)
    (free : base.changeable environment.privileged (host.homePlace home) = true)
    {done rest : List PathMetadata} {item : PathMetadata}
    (listed : plan.directories = done ++ item :: rest) {all : List PathMetadata}
    (among : done ⊆ all) :
    Establishes (performCall host environment home) (DirectoriesFinished host home plan base done)
      [.changeMode item.restorePath (item.mode % 512)]
      (HomeLayout host home base plan.paths (ChangingMode done item) (plan.files.map restoredFile))
      (FinishFailed host environment home plan base all) := by
  have inPaths := checked.directories item (by rw [listed]; simp)
  refine Establishes.single ?_ ?_
  · intro index disk next layout performed
    refine layout.updateDirectory inPaths (attemptCall_done performed).2 ?_ ?_
    · exact fun other mode time different finishing => .inr ⟨different, finishing⟩
    · exact fun mode time _ => ⟨_, time, rfl, .inl ⟨rfl, rfl⟩⟩
  · intro index disk next failure layout performed
    obtain ⟨rfl, refused⟩ := attemptCall_failed performed
    exact finishFailed_of_modes layout (modesOf_finishing done) among fun faultless =>
      update_of_modes checked free layout (modesOf_finishing done) inPaths (refused faultless)

/-- The times of a directory are changed. -/
theorem establishes_changeTimes (checked : plan.Checked)
    (free : base.changeable environment.privileged (host.homePlace home) = true)
    {done rest : List PathMetadata} {item : PathMetadata}
    (listed : plan.directories = done ++ item :: rest) {all : List PathMetadata}
    (among : done ++ [item] ⊆ all) :
    Establishes (performCall host environment home)
      (HomeLayout host home base plan.paths (ChangingMode done item) (plan.files.map restoredFile))
      [.changeTimes item.restorePath item.modifiedAt]
      (DirectoriesFinished host home plan base (done ++ [item]))
      (FinishFailed host environment home plan base all) := by
  have inPaths := checked.directories item (by rw [listed]; simp)
  refine Establishes.single ?_ ?_
  · intro index disk next layout performed
    refine layout.updateDirectory inPaths (attemptCall_done performed).2 ?_ ?_
    · rintro other mode time different (⟨same, _⟩ | ⟨_, ⟨stored, member, named, values⟩ | ⟨none, bare⟩⟩)
      · exact absurd same different
      · exact .inl ⟨stored, List.mem_append_left _ member, named, values⟩
      · refine .inr ⟨fun stored member => ?_, bare⟩
        rcases List.mem_append.mp member with before | last
        · exact none stored before
        · rw [List.mem_singleton.mp last]
          exact different.symm
    · rintro mode time (⟨_, rfl⟩ | ⟨different, _⟩)
      · exact ⟨_, _, rfl, .inl ⟨item, by simp, rfl, rfl, rfl⟩⟩
      · exact absurd rfl different
  · intro index disk next failure layout performed
    obtain ⟨rfl, refused⟩ := attemptCall_failed performed
    exact finishFailed_of_modes layout (modesOf_changingMode done item) among fun faultless =>
      update_of_modes checked free layout (modesOf_changingMode done item) inPaths
        (refused faultless)

/-- **The first directories are finished**, or a failure leaves a home that can be removed, unless
one of them takes away rights that are needed. -/
theorem establishes_finish (checked : plan.Checked)
    (free : base.changeable environment.privileged (host.homePlace home) = true)
    {items later : List PathMetadata} (directories : plan.directories = items ++ later) :
    Establishes (performCall host environment home) (DirectoriesFinished host home plan base [])
      (items.flatMap RestorePlan.directoryCalls) (DirectoriesFinished host home plan base items)
      (FinishFailed host environment home plan base items) := by
  refine Establishes.forEach fun done item rest split => ?_
  have listed : plan.directories = done ++ item :: (rest ++ later) := by
    rw [directories, split, List.append_assoc, List.cons_append]
  refine (establishes_changeMode checked free listed ?_).cons
    (establishes_changeTimes checked free listed ?_)
  · rw [split]
    exact List.subset_append_left _ _
  · rw [split]
    intro other member
    rcases List.mem_append.mp member with before | last
    · exact List.mem_append_left _ before
    · rw [List.mem_singleton.mp last]
      simp

theorem FilesMade.creatable (made : FilesMade host home plan base plan.files disk) :
    plan.Creatable host home where
  distinct := by
    have distinct := made.1.distinct
    rwa [created_eq_layout] at distinct
  verified := made.2

theorem FilesMade.finishing (made : FilesMade host home plan base plan.files disk) :
    DirectoriesFinished host home plan base [] disk :=
  made.1.weaken fun _ _ _ bare => .inr ⟨by simp, bare⟩

variable (host environment home plan base) in
/-- A failure after the home is made. -/
def RestoreFailed (index : Nat) (disk : RestoreDisk Name) : Prop :=
  CreationFailed host environment home plan base index disk ∨
    plan.Creatable host home ∧
      FinishFailed host environment home plan base plan.directories index disk

/-- **The calls of a plan** restore the entries, or fail. -/
theorem establishes_calls (checked : plan.Checked)
    (free : base.changeable environment.privileged (host.homePlace home) = true) :
    Establishes (performCall host environment home) (HomeLayout host home base [] Bare [])
      plan.calls
      (fun disk => DirectoriesFinished host home plan base plan.directories disk ∧
        plan.Creatable host home)
      (RestoreFailed host environment home plan base) := by
  have creation : Establishes (performCall host environment home)
      (HomeLayout host home base [] Bare []) plan.creation
      (fun disk => DirectoriesFinished host home plan base [] disk ∧ plan.Creatable host home)
      (RestoreFailed host environment home plan base) :=
    (establishes_creation checked free).weaken (fun _ layout => layout)
      (fun _ made => ⟨made.finishing, made.creatable⟩) fun _ _ failed => .inl failed
  have finish : Establishes (performCall host environment home)
      (fun disk => DirectoriesFinished host home plan base [] disk ∧ plan.Creatable host home)
      plan.finish
      (fun disk => DirectoriesFinished host home plan base plan.directories disk ∧
        plan.Creatable host home)
      (RestoreFailed host environment home plan base) :=
    ((establishes_finish checked free (List.append_nil plan.directories).symm).withFact
      (plan.Creatable host home)).weaken (fun _ holds => holds) (fun _ holds => holds)
      fun _ _ failed => .inr ⟨failed.2, failed.1⟩
  exact creation.append finish

end Finish

end Kb1Daemon
