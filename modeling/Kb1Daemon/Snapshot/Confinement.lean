import Kb1Daemon.Snapshot.RestoreRun
import Mathlib.Data.List.Lex

/-! # What a restore can reach

Whatever the archive is, a restore changes nothing but its home, in which it makes no path twice
and none below a file, and a restore that succeeds leaves only content with the size and the
digest of the manifest. When it fails, it leaves nothing at its home, unless it may have taken
away the rights on a directory that is not empty (`restore_confined_iff`).
-/

universe u

namespace Kb1Daemon

open JsString StoppingRun
open Posix (above mem_above)

/-- The path below the home that a call is about. -/
def RestoreCall.path : RestoreCall → Option JsString
  | .makeHome => none
  | .makeDirectory path => some path
  | .writeFile file _ => some file.restorePath
  | .changeMode path _ => some path
  | .changeTimes path _ => some path

/-- The path below the home that a call makes. -/
def RestoreCall.makes : RestoreCall → Option JsString
  | .makeDirectory path => some path
  | .writeFile file _ => some file.restorePath
  | _ => none

section Statement

variable {Name : Type u} [DecidableEq Name] (host : RestoreHost Name) (home : List JsString)
  (archive : ZipArchive) (disk : RestoreDisk Name)

/-- What a restore may do. -/
structure Confined (restored : RestoredSnapshot Name) : Prop where
  inside : ∀ call ∈ restored.calls, ∀ path ∈ call.path,
    ∃ first ∈ [units "vaults", units ".trash"], ∃ rest,
      joinSegments home path = home ++ first :: rest
  once : ((restored.calls.filterMap RestoreCall.makes).map (joinSegments home)).Nodup
  apart : ∀ file stream, RestoreCall.writeFile file stream ∈ restored.calls →
    ∀ call ∈ restored.calls, ∀ path ∈ call.path,
      joinSegments home file.restorePath ∉ above (joinSegments home path)
  outside : ∀ place, ¬ host.homePlace home <+: place →
    restored.disk.get place = disk.get place ∨
      place = (host.homePlace home).dropLast ∧ ∃ time,
        restored.disk.get place = (disk.get place).map (Posix.Entry.withTime time)
  verified : ∀ totals, restored.result = .ok totals → ∀ place bytes mode time,
    host.homePlace home <+: place → restored.disk.get place = some (.file bytes mode time) →
      ∃ entries manifest, listEntries archive = .ok entries ∧
        readManifest entries = .ok manifest ∧ ∃ file ∈ manifest.files,
          place = host.place home file.restorePath ∧ file.verifies host bytes = true
  undone : ∀ failure, restored.result = .error failure →
    if (disk.get (host.homePlace home)).isSome then restored.disk = disk
    else ∀ place, host.homePlace home <+: place → restored.disk.get place = none

/-- The restore takes no right away that the removal of its home needs: when the checks pass and
every entry can be made, no directory that is not empty gets a mode that does not grant all
rights, or the user needs none. -/
def Clearable (privileged : Bool) : Prop :=
  ∀ plan, planRestore host archive = .ok plan → HomeFree host home privileged disk →
    plan.Creatable host home →
      privileged = true ∨ ∀ item ∈ plan.directories, ¬ plan.Restrictive host home item

end Statement

section Calls

variable {Name : Type u} [DecidableEq Name] {host : RestoreHost Name} {home : List JsString}
  {plan : RestorePlan}

theorem calls_makes (plan : RestorePlan) :
    plan.calls.filterMap RestoreCall.makes = plan.created := by
  have directories : (plan.paths.map RestoreCall.makeDirectory).filterMap RestoreCall.makes =
      plan.paths := by
    rw [List.filterMap_map]
    exact List.filterMap_some
  have files : (plan.files.flatMap RestorePlan.fileCalls).filterMap RestoreCall.makes =
      plan.files.map fun file => file.1.restorePath := by
    induction plan.files with
    | nil => rfl
    | cons file files ih =>
        rw [List.flatMap_cons, List.filterMap_append, ih]
        rfl
  have finish : plan.finish.filterMap RestoreCall.makes = [] := by
    rw [List.filterMap_eq_nil_iff]
    intro call listed
    obtain ⟨item, _, inside⟩ := List.mem_flatMap.mp listed
    simp only [RestorePlan.directoryCalls, List.mem_cons, List.not_mem_nil, or_false] at inside
    rcases inside with rfl | rfl <;> rfl
  rw [RestorePlan.calls, RestorePlan.creation, List.filterMap_append, List.filterMap_append,
    directories, files, finish, List.append_nil]
  rfl

/-- Every call is about a path that is made. -/
theorem path_mem_created (checked : plan.Checked) {call : RestoreCall} (listed : call ∈ plan.calls)
    {path : JsString} (about : path ∈ call.path) : path ∈ plan.created := by
  rcases List.mem_append.mp listed with making | finishing
  · rcases List.mem_append.mp making with isDirectory | isFile
    · obtain ⟨made, member, rfl⟩ := List.mem_map.mp isDirectory
      cases about
      exact List.mem_append_left _ member
    · obtain ⟨file, member, inside⟩ := List.mem_flatMap.mp isFile
      have created : file.1.restorePath ∈ plan.created :=
        List.mem_append_right _ (List.mem_map.mpr ⟨file, member, rfl⟩)
      simp only [RestorePlan.fileCalls, List.mem_cons, List.not_mem_nil, or_false] at inside
      rcases inside with rfl | rfl | rfl <;> cases about <;> exact created
  · obtain ⟨item, member, inside⟩ := List.mem_flatMap.mp finishing
    have created := List.mem_append_left (plan.files.map fun file => file.1.restorePath)
      (checked.directories item member)
    simp only [RestorePlan.directoryCalls, List.mem_cons, List.not_mem_nil, or_false] at inside
    rcases inside with rfl | rfl <;> cases about <;> exact created

theorem writeFile_mem_files {file : ManifestFile} {stream : Option ZipStream}
    (listed : RestoreCall.writeFile file stream ∈ plan.calls) : (file, stream) ∈ plan.files := by
  rcases List.mem_append.mp listed with making | finishing
  · rcases List.mem_append.mp making with isDirectory | isFile
    · obtain ⟨made, _, same⟩ := List.mem_map.mp isDirectory
      cases same
    · obtain ⟨other, member, inside⟩ := List.mem_flatMap.mp isFile
      simp only [RestorePlan.fileCalls, List.mem_cons, List.not_mem_nil, or_false, reduceCtorEq,
        RestoreCall.writeFile.injEq] at inside
      obtain ⟨rfl, rfl⟩ := inside
      exact member
  · obtain ⟨item, _, inside⟩ := List.mem_flatMap.mp finishing
    simp [RestorePlan.directoryCalls] at inside

/-- What holds of the calls of a restore whose checks have passed. -/
structure CallsConfined (home : List JsString) (calls : List RestoreCall) : Prop where
  inside : ∀ call ∈ calls, ∀ path ∈ call.path,
    ∃ first ∈ [units "vaults", units ".trash"], ∃ rest,
      joinSegments home path = home ++ first :: rest
  once : ((calls.filterMap RestoreCall.makes).map (joinSegments home)).Nodup
  apart : ∀ file stream, RestoreCall.writeFile file stream ∈ calls →
    ∀ call ∈ calls, ∀ path ∈ call.path,
      joinSegments home file.restorePath ∉ above (joinSegments home path)

theorem CallsConfined.front {calls made : List RestoreCall} (confined : CallsConfined home calls)
    (first : made <+: calls) : CallsConfined home made where
  inside call listed := confined.inside call (first.subset listed)
  once := confined.once.sublist ((first.sublist.filterMap _).map _)
  apart file stream listed call also :=
    confined.apart file stream (first.subset listed) call (first.subset also)

theorem callsConfined (checked : plan.Checked) (home : List JsString) :
    CallsConfined home plan.calls where
  inside call listed path about := by
    have own := checked.own path (path_mem_created checked listed about)
    rw [joinSegments_safe own.safe]
    obtain ⟨first, rest, segments⟩ :=
      List.exists_cons_of_ne_nil (List.splitOn_ne_nil slash path)
    have root := own.root
    rw [segments, List.head?_cons] at root
    refine ⟨first, ?_, rest, by rw [segments]⟩
    simpa using root
  once := by
    rw [calls_makes]
    refine List.Nodup.map_on ?_ checked.distinct
    intro path listed other also same
    rw [joinSegments_safe (checked.own path listed).safe,
      joinSegments_safe (checked.own other also).safe] at same
    rw [← @Segments.joined_splitOn _ _ slash path, List.append_cancel_left same,
      Segments.joined_splitOn]
  apart file stream listed call also path about := by
    have member := writeFile_mem_files listed
    have created := path_mem_created checked also about
    have isFile : file.restorePath ∈ plan.created :=
      List.mem_append_right _ (List.mem_map.mpr ⟨_, member, rfl⟩)
    rw [joinSegments_safe (checked.own _ isFile).safe,
      joinSegments_safe (checked.own path created).safe]
    intro higher
    obtain ⟨inner, different⟩ := mem_above.mp higher
    refine checked.apart member created (mem_above.mpr ⟨?_, ?_⟩)
    · exact (List.prefix_append_right_inj home).mp inner
    · exact fun same => different (congrArg (home ++ ·) same)

theorem callsConfined_makeHome {calls : List RestoreCall} (confined : CallsConfined home calls) :
    CallsConfined home (.makeHome :: calls) where
  inside call listed path about := by
    rcases List.mem_cons.mp listed with rfl | later
    · cases about
    · exact confined.inside call later path about
  once := confined.once
  apart file stream listed call also path about := by
    have written := (List.mem_cons.mp listed).resolve_left nofun
    rcases List.mem_cons.mp also with rfl | later
    · cases about
    · exact confined.apart file stream written call later path about

end Calls

section Run

variable {Name : Type u} [DecidableEq Name] {host : RestoreHost Name}
  {environment : RestoreEnvironment} {home : List JsString} {archive : ZipArchive}
  {plan : RestorePlan} {disk base next : RestoreDisk Name}

/-- What a failed call to make the home leaves, and what a successful one needs and makes. -/
theorem makeHome_spec {failure : Option RestoreFailure}
    (performed : performCall host environment home 0 disk .makeHome = (next, failure)) :
    failure ≠ none ∧ next = disk ∨
      failure = none ∧ HomeFree host home environment.privileged disk ∧
        disk.mkdir environment.privileged (host.homePlace home) 0o700 (environment.now 0) =
          some next := by
  cases failure with
  | some failure => exact .inl ⟨nofun, (attemptCall_failed performed).1⟩
  | none =>
      have made := (attemptCall_done performed).2
      have free := Posix.Disk.add_isSome_iff.mp (Option.isSome_iff_exists.mpr ⟨next, made⟩)
      exact .inr ⟨rfl, ⟨free.1, free.2⟩, made⟩

/-- Another disk that differs at most in the time of the directory of the home. -/
def SameOutside (host : RestoreHost Name) (home : List JsString) (disk next : RestoreDisk Name) :
    Prop :=
  ∀ place, ¬ host.homePlace home <+: place →
    next.get place = disk.get place ∨
      place = (host.homePlace home).dropLast ∧ ∃ time,
        next.get place = (disk.get place).map (Posix.Entry.withTime time)

theorem SameOutside.trans (first : SameOutside host home disk base)
    (second : SameOutside host home base next) : SameOutside host home disk next := by
  intro place outside
  rcases second place outside with later | ⟨parent, time, later⟩
  · rw [later]
    exact first place outside
  · refine .inr ⟨parent, time, ?_⟩
    rcases first place outside with earlier | ⟨_, before, earlier⟩
    · rw [later, earlier]
    · rw [later, earlier, Option.map_map]
      refine congrArg (Option.map · _) (funext fun entry => ?_)
      cases entry <;> rfl

/-- The rights that the home needs do not change. -/
theorem SameOutside.changeable (same : SameOutside host home disk next) :
    next.changeable environment.privileged (host.homePlace home) =
      disk.changeable environment.privileged (host.homePlace home) := by
  refine Posix.Disk.changeable_congr fun front higher rights => ?_
  have outside : ¬ host.homePlace home <+: front := fun lower =>
    (mem_above.mp higher).2 ((mem_above.mp higher).1.eq_of_length_le lower.length_le)
  rcases same front outside with kept | ⟨_, time, kept⟩
  · rw [kept]
  · rw [kept, Option.any_map]
    exact congrArg (Option.any · _) (funext fun entry => Posix.Entry.grants_withTime _ _ _ _)

theorem sameOutside_of_eq
    (same : ∀ place, ¬ host.homePlace home <+: place → next.get place = disk.get place) :
    SameOutside host home disk next :=
  fun place outside => .inl (same place outside)

theorem sameOutside_mkdir {mode : Nat} {now : Int}
    (made : disk.mkdir environment.privileged (host.homePlace home) mode now = some next) :
    SameOutside host home disk next := by
  intro place outside
  have different : place ≠ host.homePlace home := fun same => outside (same ▸ List.prefix_refl _)
  rw [Posix.Disk.get_add made, if_neg different]
  split_ifs with parent
  · exact .inr ⟨parent, now, rfl⟩
  · exact .inl rfl

theorem sameOutside_remove (privileged : Bool) (now : Int) :
    SameOutside host home disk (disk.remove privileged (host.homePlace home) now).1 := by
  intro place outside
  rcases @Posix.Disk.get_remove_outside _ _ _ disk privileged _ _ now outside with
    same | ⟨parent, same⟩
  · exact .inl same
  · exact .inr ⟨parent, now, same⟩

/-- A home that can be removed is removed. -/
theorem Recoverable.removed (recoverable : Recoverable host home environment.privileged base disk)
    (free : base.changeable environment.privileged (host.homePlace home) = true) {now : Int}
    {place : List Name} (below : host.homePlace home <+: place) :
    (disk.remove environment.privileged (host.homePlace home) now).1.get place = none := by
  rw [← (sameOutside_of_eq recoverable.outside).changeable] at free
  rw [(Posix.Disk.remove_spec recoverable.isHome free recoverable.unlocked).2, if_pos below]

/-- Nothing is below a home that is not there. -/
theorem get_eq_none_of_absent (absent : disk.get (host.homePlace home) = none) {place : List Name}
    (below : host.homePlace home <+: place) : disk.get place = none := by
  by_cases same : host.homePlace home = place
  · rw [← same, absent]
  · refine Posix.Disk.get_below_eq_none ?_ (mem_above.mpr ⟨below, same⟩)
    rw [Posix.Disk.isDirectoryAt, absent]
    exact Bool.false_ne_true

/-- A restore that fails before its home is made. -/
theorem confined_unchanged {calls : List RestoreCall} (confined : CallsConfined home calls)
    (failure : RestoreFailure) : Confined host home archive disk ⟨disk, calls, .error failure⟩ where
  inside := confined.inside
  once := confined.once
  apart := confined.apart
  outside _ _ := .inl rfl
  verified totals done := nomatch done
  undone failure _ := by
    split_ifs with present
    · rfl
    · exact fun place => get_eq_none_of_absent (Option.not_isSome_iff_eq_none.mp present)

/-- A file of a finished home has the content of the manifest. -/
theorem verified_of_finished (planned : planRestore host archive = .ok plan)
    (finished : DirectoriesFinished host home plan base plan.directories disk)
    (creatable : plan.Creatable host home) {place : List Name} {bytes : List UInt8} {mode : Nat}
    {time : Int} (below : host.homePlace home <+: place)
    (found : disk.get place = some (.file bytes mode time)) :
    ∃ entries manifest, listEntries archive = .ok entries ∧ readManifest entries = .ok manifest ∧
      ∃ file ∈ manifest.files, place = host.place home file.restorePath ∧
        file.verifies host bytes = true := by
  obtain ⟨entries, manifest, directories, listed, read, _, _, _, rfl⟩ := planRestore_iff.mp planned
  refine ⟨entries, manifest, listed, read, ?_⟩
  rcases finished.nothingElse place below (by rw [found, Option.isSome_some]) with
    isHome | ⟨path, inside, at'⟩
  · obtain ⟨made, home⟩ := finished.isHome
    rw [← isHome, found] at home
    cases home
  rcases List.mem_append.mp inside with isDirectory | named
  · obtain ⟨made, modified, directory, _⟩ := finished.isDirectory path isDirectory
    rw [← at', found] at directory
    cases directory
  · obtain ⟨entry, restored, rfl⟩ := List.mem_map.mp named
    obtain ⟨file, member, rfl⟩ := List.mem_map.mp restored
    obtain ⟨stored, _⟩ := finished.isFile _ restored
    rw [← at', found] at stored
    cases stored
    obtain ⟨stream, opened, _, verifies⟩ := creatable.verified file member
    obtain ⟨original, inManifest, rfl⟩ := List.mem_map.mp member
    refine ⟨original, inManifest, at', ?_⟩
    rw [fileBytes, opened]
    exact verifies

theorem RestoreFailed.outside {index : Nat}
    (failed : RestoreFailed host environment home plan base index disk) :
    SameOutside host home base disk := by
  rcases failed with ⟨recoverable, _⟩ | ⟨_, _, outside, _⟩
  · exact sameOutside_of_eq recoverable.outside
  · exact sameOutside_of_eq outside

/-- **A restore that takes no right away** is confined. -/
theorem confined_of_clearable
    (clearable : Clearable host home archive disk environment.privileged) :
    Confined host home archive disk
      (restoreSnapshotArchive host environment home archive disk) := by
  have empty : CallsConfined home [] := ⟨by simp, by simp, by simp⟩
  unfold restoreSnapshotArchive
  cases planned : planRestore host archive with
  | error failure => exact confined_unchanged empty failure
  | ok plan =>
      have checked := planRestore_checked planned
      dsimp only
      rcases performed : performCall host environment home 0 disk .makeHome with ⟨next, failure⟩
      rcases makeHome_spec performed with ⟨failed, rfl⟩ | ⟨rfl, free, made⟩
      · obtain ⟨failure, rfl⟩ := Option.ne_none_iff_exists'.mp failed
        exact confined_unchanged (callsConfined_makeHome empty) failure
      · have opened := sameOutside_mkdir made
        have changeable : next.changeable environment.privileged (host.homePlace home) = true :=
          opened.changeable.trans free.changeable
        obtain ⟨done, stopped⟩ := establishes_calls checked changeable 1 next
          (HomeLayout.made free made)
        have calls := callsConfined_makeHome ((callsConfined checked home).front
          (@calls_run_front _ _ _ (performCall host environment home) 1 next plan.calls))
        dsimp only
        split
        · rename_i finished
          obtain ⟨layout, creatable⟩ := done finished
          exact {
            inside := calls.inside
            once := calls.once
            apart := calls.apart
            outside := opened.trans (sameOutside_of_eq layout.outside)
            verified := fun _ _ _ _ _ _ below found =>
              verified_of_finished planned layout creatable below found
            undone := nofun }
        · rename_i failure stops
          have failed := stopped (by rw [performCalls] at stops; rw [stops]; exact nofun)
          exact {
            inside := calls.inside
            once := calls.once
            apart := calls.apart
            outside := (opened.trans failed.outside).trans (sameOutside_remove _ _)
            verified := nofun
            undone := by
              intro _ _
              rw [if_neg (by rw [free.absent]; exact Bool.false_ne_true)]
              intro place below
              refine Recoverable.removed ?_ changeable below
              rcases failed with ⟨recoverable, _⟩ | ⟨creatable, recoverable, _, _⟩
              · exact recoverable
              · refine recoverable fun ⟨user, item, listed, restrictive⟩ => ?_
                rcases clearable plan planned free creatable with privileged | none
                · exact Bool.false_ne_true (user.symm.trans privileged)
                · exact none item listed restrictive }

end Run

section Locked

variable {Name : Type u} [DecidableEq Name] {host : RestoreHost Name} {home : List JsString}
  {archive : ZipArchive} {plan : RestorePlan} {disk base next : RestoreDisk Name}

/-- The calls up to the one that changes the mode of a directory. -/
def RestorePlan.upTo (plan : RestorePlan) (done : List PathMetadata) (item : PathMetadata) :
    List RestoreCall :=
  plan.creation ++ done.flatMap directoryCalls ++
    [.changeMode item.restorePath (item.mode % 512)]

theorem calls_eq_upTo {done rest : List PathMetadata} {item : PathMetadata}
    (listed : plan.directories = done ++ item :: rest) :
    plan.calls = plan.upTo done item ++
      .changeTimes item.restorePath item.modifiedAt :: rest.flatMap RestorePlan.directoryCalls := by
  rw [RestorePlan.calls, RestorePlan.finish, listed, List.flatMap_append, List.flatMap_cons,
    RestorePlan.upTo]
  simp [RestorePlan.directoryCalls]

/-- An environment in which one call fails, and no other one. -/
def faultAt (count : Nat) : RestoreEnvironment where
  privileged := false
  now _ := 0
  fault index := if index = count then some .refused else none

theorem fault_faultAt {index count : Nat} (earlier : index < count) :
    (faultAt count).fault index = none :=
  if_neg earlier.ne

/-- At its index a fault strikes. -/
theorem fault_faultAt_self (count : Nat) : (faultAt count).fault count = some .refused := if_pos rfl

/-- Without a fault, the calls up to the first directory that takes away its rights are made. -/
theorem establishes_upTo {environment : RestoreEnvironment} (checked : plan.Checked)
    (free : base.changeable environment.privileged (host.homePlace home) = true)
    (creatable : plan.Creatable host home) {done rest : List PathMetadata} {item : PathMetadata}
    (listed : plan.directories = done ++ item :: rest)
    (before : ∀ other ∈ done, ¬ plan.Restrictive host home other) :
    Establishes (performCall host environment home) (HomeLayout host home base [] Bare [])
      (plan.upTo done item)
      (HomeLayout host home base plan.paths (ChangingMode done item)
        (plan.files.map restoredFile))
      (fun index _ => environment.fault index ≠ none) := by
  have unrestricted : ¬ SomeRestrictive host environment home plan done :=
    fun ⟨_, other, member, restrictive⟩ => before other member restrictive
  have creation : Establishes (performCall host environment home)
      (HomeLayout host home base [] Bare []) plan.creation
      (DirectoriesFinished host home plan base []) fun index _ => environment.fault index ≠ none :=
    (establishes_creation checked free).weaken (fun _ layout => layout)
      (fun _ made => made.finishing) fun _ _ failed faultless => failed.2 faultless creatable
  have finish : Establishes (performCall host environment home)
      (DirectoriesFinished host home plan base []) (done.flatMap RestorePlan.directoryCalls)
      (DirectoriesFinished host home plan base done)
      fun index _ => environment.fault index ≠ none :=
    (establishes_finish checked free listed).weaken (fun _ holds => holds)
      (fun _ holds => holds) fun _ _ failed faultless => unrestricted (failed.2.2 faultless)
  refine (creation.append finish).append ?_
  exact (establishes_changeMode checked free listed (List.Subset.refl done)).weaken
    (fun _ holds => holds) (fun _ holds => holds)
    fun _ _ failed faultless => unrestricted (failed.2.2 faultless)

/-- A directory that has taken away its rights is locked. -/
theorem locked_of_changingMode {done : List PathMetadata} {item : PathMetadata}
    (layout : HomeLayout host home base plan.paths (ChangingMode done item)
      (plan.files.map restoredFile) disk)
    (inPaths : item.restorePath ∈ plan.paths) (restrictive : plan.Restrictive host home item) :
    disk.locked false (host.place home item.restorePath) = true := by
  obtain ⟨mode, time, found, changing⟩ := layout.isDirectory _ inPaths
  obtain ⟨_, rfl⟩ := changing.resolve_right fun other => other.1 rfl
  obtain ⟨closed, path, created, below⟩ := restrictive
  refine Posix.Disk.locked_iff.mpr ⟨⟨?_, ?_⟩, host.place home path, below, ?_⟩
  · exact Posix.Disk.isDirectoryAt_iff.mpr ⟨_, time, found⟩
  · rw [found, Option.any_some, Posix.Entry.grants, Bool.false_or, decide_eq_false_iff_not]
    exact closed
  · refine layout.present ?_
    rwa [created_eq_layout]

/-- A call that fails ends a run. -/
theorem run_stops {environment : RestoreEnvironment} {index : Nat} {path : JsString} {time : Int}
    {rest : List RestoreCall} (fault : (environment.fault index).isSome = true) :
    (performCalls host environment home index disk (.changeTimes path time :: rest)).state = disk ∧
      (performCalls host environment home index disk (.changeTimes path time :: rest)).failure =
        some .call := by
  rw [performCalls, run, performCall, attemptCall_faulty fault]
  exact ⟨rfl, rfl⟩

/-- **A fault after a directory has taken away its rights** leaves the home. -/
theorem home_left (planned : planRestore host archive = .ok plan)
    (free : HomeFree host home false disk) (creatable : plan.Creatable host home)
    {done rest : List PathMetadata} {item : PathMetadata}
    (listed : plan.directories = done ++ item :: rest)
    (restrictive : plan.Restrictive host home item)
    (before : ∀ other ∈ done, ¬ plan.Restrictive host home other) :
    ∃ environment : RestoreEnvironment, environment.privileged = false ∧
      (restoreSnapshotArchive host environment home archive disk).result = .error .call ∧
      ((restoreSnapshotArchive host environment home archive disk).disk.get
        (host.homePlace home)).isSome = true := by
  have checked := planRestore_checked planned
  have inPaths := checked.directories item (by rw [listed]; simp)
  let count := 1 + (plan.upTo done item).length
  refine ⟨faultAt count, rfl, ?_⟩
  have made : ∃ next, disk.mkdir false (host.homePlace home) 0o700 0 = some next :=
    Option.isSome_iff_exists.mp (Posix.Disk.add_isSome_iff.mpr ⟨free.changeable, free.absent⟩)
  obtain ⟨next, made⟩ := made
  have performed : performCall host (faultAt count) home 0 disk .makeHome = (next, none) := by
    rw [performCall, ← attemptCall_faultless (fault_faultAt (Nat.lt_add_right _ Nat.one_pos))]
    exact congrArg _ made
  have changeable : next.changeable false (host.homePlace home) = true :=
    (@SameOutside.changeable _ _ _ (faultAt count) _ _ _
      (@sameOutside_mkdir _ _ _ (faultAt count) _ _ _ _ _ made)).trans free.changeable
  obtain ⟨reached, stopped⟩ := @establishes_upTo _ _ _ _ _ _ (faultAt count) checked
    changeable creatable _ _ _ listed before 1 next (HomeLayout.made free made)
  have finished : (run (performCall host (faultAt count) home) 1 next
      (plan.upTo done item)).failure = none := by
    by_contra failed
    refine stopped failed (fault_faultAt ?_)
    have length := (@calls_run_front _ _ _ (performCall host (faultAt count) home) 1 next
      (plan.upTo done item)).length_le
    omega
  have layout := reached finished
  have locked := locked_of_changingMode layout inPaths restrictive
  have faulty : ((faultAt count).fault count).isSome = true := by
    rw [fault_faultAt_self, Option.isSome_some]
  obtain ⟨state, failure⟩ := @run_stops _ _ host home
    (run (performCall host (faultAt count) home) 1 next (plan.upTo done item)).state
    (faultAt count) count item.restorePath item.modifiedAt
    (rest.flatMap RestorePlan.directoryCalls) faulty
  unfold restoreSnapshotArchive
  rw [planned]
  dsimp only
  rw [performed]
  dsimp only
  rw [performCalls, calls_eq_upTo listed, run_append, finished]
  dsimp only
  rw [performCalls] at state failure
  rw [failure]
  dsimp only
  refine ⟨rfl, ?_⟩
  rw [state]
  refine (Posix.Disk.remove_fails_of_locked ?_ locked).2
  exact home_prefix_place (checked.own _ (List.mem_append_left _ inPaths))

/-- **A restore is confined, whatever its faults,** exactly when it takes no right away that the
removal of its home needs. -/
theorem restore_confined_iff (host : RestoreHost Name) (home : List JsString)
    (archive : ZipArchive) (disk : RestoreDisk Name) (privileged : Bool) :
    (∀ now fault, Confined host home archive disk
        (restoreSnapshotArchive host ⟨privileged, now, fault⟩ home archive disk)) ↔
      Clearable host home archive disk privileged := by
  constructor
  · intro confined plan planned free creatable
    by_contra restricted
    rw [not_or, Bool.not_eq_true] at restricted
    obtain ⟨rfl, some⟩ := restricted
    push Not at some
    obtain ⟨item, listed, restrictive⟩ := some
    classical
    obtain ⟨first, found⟩ := Option.isSome_iff_exists.mp (List.find?_isSome
      (p := fun item => decide (plan.Restrictive host home item)).mpr
        ⟨item, listed, decide_eq_true restrictive⟩)
    obtain ⟨isFirst, done, rest, directories, before⟩ := List.find?_eq_some_iff_append.mp found
    obtain ⟨⟨privileged, now, fault⟩, rfl, failed, left⟩ :=
      home_left planned free creatable directories (of_decide_eq_true isFirst)
        fun other member => by simpa using before other member
    have undone := (confined now fault).undone _ failed
    rw [if_neg (by rw [free.absent]; exact Bool.false_ne_true)] at undone
    rw [undone _ (List.prefix_refl _)] at left
    cases left
  · intro clearable now fault
    exact @confined_of_clearable _ _ host ⟨privileged, now, fault⟩ home archive disk clearable

end Locked

namespace LockedHome

/-- A host that compares strings by their code units. -/
def host : RestoreHost JsString where
  localeLe left right := left.map UInt16.toNat ≤ right.map UInt16.toNat
  total left right := by
    simpa using le_total (left.map UInt16.toNat) (right.map UInt16.toNat)
  trans first second := by
    simp only [decide_eq_true_eq] at first second ⊢
    exact le_trans first second
  sha256 _ := []
  nameOf := id

def entry (name content : String) : ZipEntry :=
  ⟨units name, 0, content.length, 0, some ⟨content.toUTF8.toList, true⟩⟩

/-- The first directory that gets its mode is the parent of the second. -/
def manifest : String :=
  "\x7b\"schemaVersion\":2,\"createdAt\":\"2026-01-01T00:00:00Z\"," ++
  "\"durableAsOf\":\"2026-01-01T00:00:00Z\",\"directories\":[" ++
  "\x7b\"path\":\"a/b/c\",\"originalPath\":\"vaults\"," ++
  "\"modifiedAt\":\"2026-01-01T00:00:00Z\",\"mode\":0\x7d," ++
  "\x7b\"path\":\"z\",\"originalPath\":\"vaults/x\"," ++
  "\"modifiedAt\":\"2026-01-01T00:00:00Z\",\"mode\":448\x7d]," ++
  "\"files\":[],\"totals\":\x7b\"files\":0,\"bytes\":0\x7d\x7d"

def archive : ZipArchive where
  entries := [entry "kb1-snapshot.json" manifest,
    entry "kb1-snapshot.complete" "2026-01-01T00:00:00Z\n", entry "a/b/c/" "", entry "z/" ""]
  complete := true

/-- The restore of the archive, without a fault. -/
def restored : RestoredSnapshot JsString :=
  restoreSnapshotArchive host ⟨false, fun _ => 0, fun _ => none⟩ [units "home"] archive
    (Posix.Disk.rootOnly 0o777 0)

def directories : List PathMetadata :=
  [⟨units "a/b/c", some (units "vaults"), 1767225600000, 0⟩,
    ⟨units "z", some (units "vaults/x"), 1767225600000, 448⟩]

/-- The manifest, as the restore reads it. -/
def readable : SnapshotManifest :=
  ⟨units "2026-01-01T00:00:00Z", [], some directories, 0, 0⟩

theorem readManifest_archive : readManifest archive.entries = .ok readable := by
  have next {Value Result : Type} (value : Value) (rest : Value → Except RestoreFailure Result) :
      (.ok value >>= rest) = rest value := rfl
  have found : findEntry archive.entries snapshotManifestPath =
      some (entry "kb1-snapshot.json" manifest) := by
    rw [findEntry, archive, List.find?_cons_of_pos]
    decide +kernel
  have completion : readSmallEntry archive.entries snapshotCompletionPath completionLimit =
      .ok (units "2026-01-01T00:00:00Z\n") := by
    decide +kernel
  have length : manifest.length = 321 := by
    unfold manifest
    iterate 5 rw [String.length_append]
    decide +kernel
  have small : (entry "kb1-snapshot.json" manifest).uncompressedSize ≤ manifestLimit := by
    rw [entry]
    dsimp only
    rw [length]
    decide
  have text : readSmallEntry archive.entries snapshotManifestPath manifestLimit =
      .ok (Utf8.decode manifest.toUTF8.toList) := by
    rw [readSmallEntry, found, Option.filter_some, if_pos (decide_eq_true small)]
    rfl
  have schema : (Json.parse (Utf8.decode manifest.toUTF8.toList)).bind manifestSchema =
      some readable := by
    unfold manifest
    iterate 5 rw [Utf8.toList_toUTF8_append]
    decide +kernel
  rw [readManifest, text, next, schema, Option.elim_some, pure_bind, completion, next]
  decide +kernel

theorem planRestore_archive :
    planRestore host archive = .ok (makePlan host archive.entries readable directories) := by
  have step {entries : List ZipEntry} {item : ZipEntry} (safe : safePath item.path = .ok ())
      (fresh : entries.any (·.fileName = item.fileName) = false)
      (plain : item.externalFileAttributes = 0) :
      listEntry entries item = .ok (entries ++ [item]) := by
    rw [listEntry, safe, fresh, plain]
    rfl
  have next (entries : List ZipEntry)
      (rest : List ZipEntry → Except RestoreFailure (List ZipEntry)) :
      (.ok entries >>= rest) = rest entries := rfl
  have listed : listEntries archive = .ok archive.entries := by
    rw [listEntries, archive, List.foldlM_cons,
      step (by decide +kernel) (by decide +kernel) rfl, next, List.foldlM_cons,
      step (by decide +kernel) (by decide +kernel) rfl, next, List.foldlM_cons,
      step (by decide +kernel) (by decide +kernel) rfl, next, List.foldlM_cons,
      step (by decide +kernel) (by decide +kernel) rfl]
    rfl
  have checked : checkItems archive.entries directories readable.files = .ok () := by
    decide +kernel
  exact planRestore_iff.mpr ⟨_, _, _, listed, readManifest_archive, rfl, checked,
    fun _ member => absurd member List.not_mem_nil, rfl⟩

/-- The restore fails, and its home stays. -/
theorem restore_leaves_home :
    ¬ Confined host [units "home"] archive (Posix.Disk.rootOnly 0o777 0) restored := by
  have run : restored.result = .error .call ∧
      (restored.disk.get [units "home"]).isSome = true := by
    rw [restored, restoreSnapshotArchive, planRestore_archive]
    decide +kernel
  obtain ⟨failed, left⟩ := run
  intro confined
  have undone := confined.undone _ failed
  rw [if_neg (by decide)] at undone
  rw [undone [units "home"] (List.prefix_refl _)] at left
  cases left

end LockedHome

end Kb1Daemon
