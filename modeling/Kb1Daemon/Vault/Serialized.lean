import Kb1Daemon.Vault.Following

/-! # Concurrent folder calls on one root

Calls that check, wait in the queue of the root and run their sections one at a time, with the
calls of the file system of all of them interleaved. In a guarded run the metadata is what the
sections that succeeded make of it in their order, and every folder with metadata is there whenever
no section is at work; in every run each waiting section gets its turn
(`mutations_serialize`).
-/

namespace Kb1Daemon

open JsString

/-- The calls that may be at work at the same time. -/
inductive FolderMutationCall where
  | setFolderMetadata (path : JsString) (input : FolderMetadataInput)
  | deleteVaultFolder (path : JsString) (recursive permanent : Bool)
  | moveVaultPath (fromPath toPath : JsString) (folder overwrite : Bool)

/-- A section of a call that passed its checks. -/
inductive FolderMutation where
  | set (rel : JsString) (normalizedInput : FolderMetadataInput)
  | delete (rel : JsString) (abs : Place) (permanent : Bool)
  | move (ends : VaultContext.MoveEnds) (overwrite : Bool)
  deriving DecidableEq

/-- What a call does before it waits for its section. The move of a file has no section. -/
def FolderMutationCall.opening (ctx : VaultContext) : FolderMutationCall → VaultProgram (Option FolderMutation)
  | setFolderMetadata path input => do
      match ← ctx.checkSet path input with
      | .error _ => return none
      | .ok (rel, normalizedInput) => return some (.set rel normalizedInput)
  | deleteVaultFolder path recursive permanent => do
      match ← ctx.checkDelete path recursive with
      | .error _ => return none
      | .ok (rel, abs) => return some (.delete rel abs permanent)
  | moveVaultPath fromPath toPath folder overwrite => do
      match ← ctx.checkMove fromPath toPath folder with
      | .error _ => return none
      | .ok ends =>
          if folder then return some (.move ends overwrite)
          else
            let _ ← ctx.movePath ends false overwrite none
            return none

namespace FolderMutation

/-- Run the section, and say whether it succeeds. -/
def program (ctx : VaultContext) : FolderMutation → VaultProgram Bool
  | set rel normalizedInput => do return (← ctx.setSection rel normalizedInput).toBool
  | delete rel abs permanent => do return (← ctx.deleteSection rel abs permanent).toBool
  | move ends overwrite => do return (← ctx.moveSection ends overwrite).toBool

def effect : FolderMutation → (Place → Option FolderMetadata) → Place → Option FolderMetadata
  | set rel normalizedInput => remarked (namesOf rel) normalizedInput
  | delete rel _ _ => removed (namesOf rel)
  | move ends _ => moved (namesOf ends.fromPath) (namesOf ends.toPath)

/-- What the checks say of a section, whatever is done since. -/
def Checked (ctx : VaultContext) : FolderMutation → Prop
  | set rel normalizedInput => validateVaultPath rel .folder = true ∧
      ∃ input, normalizeFolderMetadataInput input = .ok normalizedInput
  | delete rel abs _ => validateVaultPath rel .folder = true ∧ abs = ctx.place ++ namesOf rel
  | move ends _ => ctx.CheckedEnds true ends

/-- No path has a lone surrogate. The folder that is marked is still there and has not the name of the
prototype; the folder that is moved does not go over one above it, and every moved path is
storable. -/
def Fits (ctx : VaultContext) (disk : VaultDisk) : FolderMutation → Prop
  | set rel _ => Utf8.isWellFormed rel = true ∧ rel ≠ prototypeName ∧
      disk.isDirectoryAt (ctx.place ++ namesOf rel) = true
  | delete rel .. => Utf8.isWellFormed rel = true
  | move ends overwrite => VaultContext.Encodes ends ∧
      VaultContext.Room ends overwrite disk ∧ VaultContext.Storable ctx ends disk

end FolderMutation

/-- The call removes and renames no folder. -/
def FsCall.spares (disk : VaultDisk) {Answer : Type} : FsCall Answer → Bool
  | .rename source _ => !disk.isDirectoryAt (onDisk source)
  | .rm path _ _ => !disk.isDirectoryAt (onDisk path)
  | _ => true

/-- The section at work, what is left of it, and whether it has touched the vault. -/
structure SectionAtWork where
  mutation : FolderMutation
  rest : VaultProgram Bool
  touched : Bool

/-- A call before its section. -/
structure Caller where
  rest : VaultProgram (Option FolderMutation)
  touched : Bool

/-- The calls on one root; `log` lists the sections that succeeded. -/
structure RootCalls where
  disk : VaultDisk
  callers : List Caller
  waiting : List FolderMutation
  running : Option SectionAtWork
  log : List FolderMutation

namespace RootCalls

def idle (disk : VaultDisk) : RootCalls := ⟨disk, [], [], none, []⟩

/-- A step of a call before its section. In a guarded run the move of a file removes and renames no
folder. -/
inductive CallerStep (ctx : VaultContext) (guarded : Bool) : RootCalls → RootCalls → Prop where
  | call (calls : RootCalls) (call : FolderMutationCall) :
      CallerStep ctx guarded calls
        { calls with callers := calls.callers ++ [⟨call.opening ctx, false⟩] }
  | act {calls : RootCalls} {front rest : List Caller} {Answer : Type} {request : FsCall Answer}
      {next : Answer → VaultProgram (Option FolderMutation)} {touched : Bool} {answer : Answer}
      {after : VaultState} :
      calls.callers = front ++ ⟨.call request next, touched⟩ :: rest →
      (guarded = true → request.spares calls.disk = true) →
      request.answers false (ctx.settles false) ⟨calls.disk, touched⟩ answer after →
      CallerStep ctx guarded calls
        { calls with
          disk := after.disk
          callers := front ++ ⟨next answer, after.touched⟩ :: rest }
  | enqueue {calls : RootCalls} {front rest : List Caller} {mutation : FolderMutation} {touched : Bool} :
      calls.callers = front ++ ⟨.done (some mutation), touched⟩ :: rest →
      CallerStep ctx guarded calls
        { calls with callers := front ++ rest, waiting := calls.waiting ++ [mutation] }
  | leave {calls : RootCalls} {front rest : List Caller} {caller : Caller} :
      calls.callers = front ++ caller :: rest →
      (caller.rest = .done none ∨ ∃ failure, caller.rest = .thrown failure) →
      CallerStep ctx guarded calls { calls with callers := front ++ rest }

/-- A step of the queue. In a guarded run a section fits when it starts, and the disk is steady: no
call fails after the section has taken something away, and no removal fails after a part of it. -/
inductive SectionStep (ctx : VaultContext) (guarded : Bool) : RootCalls → RootCalls → Prop where
  | start {calls : RootCalls} {mutation : FolderMutation} {rest : List FolderMutation} :
      calls.running = none → calls.waiting = mutation :: rest →
      (guarded = true → mutation.Fits ctx calls.disk) →
      SectionStep ctx guarded calls
        { calls with running := some ⟨mutation, mutation.program ctx, false⟩, waiting := rest }
  | work {calls : RootCalls} {mutation : FolderMutation} {Answer : Type} {request : FsCall Answer}
      {next : Answer → VaultProgram Bool} {touched : Bool} {answer : Answer} {after : VaultState} :
      calls.running = some ⟨mutation, .call request next, touched⟩ →
      request.answers guarded (ctx.settles false) ⟨calls.disk, touched⟩ answer after →
      SectionStep ctx guarded calls
        { calls with
          disk := after.disk
          running := some ⟨mutation, next answer, after.touched⟩ }
  | finish {calls : RootCalls} {mutation : FolderMutation} {succeeded touched : Bool} :
      calls.running = some ⟨mutation, .done succeeded, touched⟩ →
      SectionStep ctx guarded calls
        { calls with
          running := none
          log := if succeeded then calls.log ++ [mutation] else calls.log }
  | fail {calls : RootCalls} {mutation : FolderMutation} {failure : VaultFailure} {touched : Bool} :
      calls.running = some ⟨mutation, .thrown failure, touched⟩ →
      SectionStep ctx guarded calls { calls with running := none }

/-- Steps in any order. -/
inductive Run (ctx : VaultContext) (guarded : Bool) (start : RootCalls) : RootCalls → Prop where
  | nil : Run ctx guarded start start
  | caller {calls next : RootCalls} : Run ctx guarded start calls →
      CallerStep ctx guarded calls next → Run ctx guarded start next
  | queue {calls next : RootCalls} : Run ctx guarded start calls →
      SectionStep ctx guarded calls next → Run ctx guarded start next

end RootCalls

variable {ctx : VaultContext}

namespace VaultContext

/-- The call touches nothing that sections rely on but folders. -/
def HarmlessCall (ctx : VaultContext) {Answer : Type} : FsCall Answer → Prop
  | .mkdir path => Away ctx (onDisk path)
  | .writeFile path _ => Away ctx (onDisk path)
  | .appendFile path _ => Away ctx (onDisk path)
  | .rename source target => ctx.Inside (onDisk source) ∧ ctx.Inside (onDisk target)
  | .rm path _ _ => ctx.Inside (onDisk path)
  | .cp _ target => ctx.Inside (onDisk target)
  | .copyFile _ target => ctx.Inside (onDisk target)
  | _ => True

theorem keeps_rename {source target : Place} {state : VaultState} {disk : VaultDisk}
    (inside : ctx.Inside source) (into : ctx.Inside target)
    (file : state.disk.isDirectoryAt source = false)
    (done : Posix.Disk.rename state.disk source target = some disk) :
    ctx.Keeps state ⟨disk, state.touched⟩ := by
  refine ⟨rfl, fun path directory => isDirectoryAt_rename_file done file directory, ?_⟩
  intro name rest _ _
  rw [Posix.Disk.get_rename done, if_neg (not_above_own into _), if_neg (not_above_own inside _)]

theorem keeps_rm {path : Place} {recursive force : Bool} {state : VaultState} {value : Unit}
    {disk : VaultDisk} (inside : ctx.Inside path) (file : state.disk.isDirectoryAt path = false)
    (done : VaultDisk.rm state.disk path recursive force = .ok (value, disk)) :
    ctx.Keeps state ⟨disk, state.touched⟩ := by
  rcases VaultDisk.rm_eq_ok done with ⟨rfl, _⟩ | ⟨rfl, _⟩
  · exact Keeps.refl state
  · refine ⟨rfl, fun other directory => isDirectoryAt_without_file file directory, ?_⟩
    intro name rest _ _
    rw [Posix.Disk.get_without, if_neg (not_above_own inside _)]

theorem keeps_cp {source target : Place} {state : VaultState} {value : Unit} {disk : VaultDisk}
    (inside : ctx.Inside target) (done : VaultDisk.cp state.disk source target = .ok (value, disk)) :
    ctx.Keeps state ⟨disk, state.touched⟩ := by
  have copy := VaultDisk.cp_eq_ok done
  refine ⟨rfl, fun path directory => Posix.Disk.isDirectoryAt_copy copy directory, ?_⟩
  intro name rest _ _
  rw [Posix.Disk.get_copy copy, if_neg (not_above_own inside _)]

/-- A removal of what is no directory takes no directory away, and none in part. -/
theorem keeps_removedPartly {path : Place} {state : VaultState} {disk : VaultDisk}
    (inside : ctx.Inside path) (file : state.disk.isDirectoryAt path = false)
    (part : VaultDisk.RemovedPartly state.disk path disk) :
    ctx.Keeps state ⟨disk, state.touched⟩ := by
  refine ⟨rfl, fun other directory => ?_, fun name rest _ _ => ?_⟩
  · rcases part other with same | ⟨inner, _⟩
    · rw [Posix.Disk.isDirectoryAt, same]
      exact directory
    · exact absurd inner (not_inside_of_file file directory)
  · exact (part _).resolve_right fun both => not_above_own inside _ both.1

/-- A harmless call that removes and renames no folder does no more than a section allows. -/
theorem keeps_of_answers {steady : Bool} {settles : Place → Bool} {Answer : Type}
    {call : FsCall Answer} {state after : VaultState} {answer : Answer}
    (harmless : HarmlessCall ctx call) (spares : call.spares state.disk = true)
    (given : call.answers steady settles state answer after) (touched : Bool) :
    ctx.Keeps ⟨state.disk, touched⟩ ⟨after.disk, touched⟩ := by
  have kept {Value : Type} {performed : VaultDisk → Except FsCode (Value × VaultDisk)}
      {partly : VaultDisk → VaultDisk → Prop} {touches : Bool → Bool} {answer : Except FsCode Value}
      (given : Answered steady performed partly touches state answer after)
      (does : ∀ value disk, performed state.disk = .ok (value, disk) →
        ctx.Keeps ⟨state.disk, touched⟩ ⟨disk, touched⟩)
      (half : ∀ disk, partly state.disk disk → ctx.Keeps ⟨state.disk, touched⟩ ⟨disk, touched⟩) :
      ctx.Keeps ⟨state.disk, touched⟩ ⟨after.disk, touched⟩ := by
    rcases given with ⟨value, disk, ok, _, rfl⟩ | ⟨_, rfl, _⟩ | ⟨_, _, disk, part, _, rfl⟩
    · exact does value disk ok
    · exact Keeps.refl _
    · exact half disk part
  cases call
  all_goals dsimp only [FsCall.answers] at given
  case stat path =>
      exact kept given (fun _ _ ok => (VaultDisk.stat_eq_ok ok).1 ▸ Keeps.refl _)
        fun _ part => part.elim
  case readdir path =>
      exact kept given (fun _ _ ok => VaultDisk.readdir_eq_ok ok ▸ Keeps.refl _)
        fun _ part => part.elim
  case mkdir path =>
      exact kept given (fun _ _ ok => keeps_mkdir harmless ok)
        fun _ part => keeps_madePartly harmless part
  case readFile path =>
      exact kept given (fun _ _ ok => (VaultDisk.readFile_eq_ok ok).1 ▸ Keeps.refl _)
        fun _ part => part.elim
  case writeFile path content =>
      exact kept given (fun _ _ ok => keeps_putFile harmless ok)
        fun _ part => keeps_writtenPartly harmless part
  case appendFile path entry =>
      exact kept given (fun _ _ ok => keeps_putFile harmless ok)
        fun _ part => keeps_writtenPartly harmless part
  case rename source target =>
      rcases given with given | ⟨_, rfl, _⟩
      · have file := (Bool.not_eq_true' _).mp spares
        exact kept given (fun _ _ ok =>
          keeps_rename harmless.1 harmless.2 file (VaultDisk.rename_eq_ok ok))
            fun _ part => part.elim
      · exact Keeps.refl _
  case rm path recursive force =>
      have file := (Bool.not_eq_true' _).mp spares
      exact kept given (fun _ _ ok => keeps_rm harmless file ok)
        fun _ part => keeps_removedPartly harmless file part.2.2
  case cp source target =>
      exact kept given (fun _ _ ok => keeps_cp harmless ok)
        fun _ part => keeps_copiedPartly harmless part
  case copyFile source target =>
      refine kept given (fun _ _ ok => ?_) fun _ part =>
        keeps_writtenPartly (away_of_inside harmless) part
      obtain ⟨content, done⟩ := VaultDisk.copyFile_eq_ok ok
      exact keeps_putFile (away_of_inside harmless) done
  case randomUUID =>
      rw [given]
      exact Keeps.refl _
  case now =>
      rw [given]
      exact Keeps.refl _

/-- Looking does no harm. -/
theorem looking_harmless : ctx.Looking (HarmlessCall ctx) := fun _ _ => ⟨trivial, trivial⟩

theorem harmless_of_inside {Answer : Type} {call : FsCall Answer}
    (inside : ∀ path ∈ call.paths, ctx.Inside path) : HarmlessCall ctx call := by
  have kept (path : Place) (listed : path ∈ call.paths) : ctx.Inside (onDisk path) :=
    (inside path listed).onDisk
  cases call
  case mkdir path => exact away_of_inside (kept path List.mem_cons_self)
  case writeFile path content => exact away_of_inside (kept path List.mem_cons_self)
  case appendFile path entry => exact away_of_inside (kept path List.mem_cons_self)
  case rename source target =>
    exact ⟨kept source List.mem_cons_self, kept target (List.mem_cons_of_mem _ List.mem_cons_self)⟩
  case rm path recursive force => exact kept path List.mem_cons_self
  case cp source target => exact kept target (List.mem_cons_of_mem _ List.mem_cons_self)
  case copyFile source target => exact kept target (List.mem_cons_of_mem _ List.mem_cons_self)
  all_goals trivial

/-- The move of a file is harmless. -/
theorem meets_movePath_file {ends : MoveEnds} (checked : CheckedEnds ctx false ends)
    (overwrite : Bool) :
    (ctx.movePath ends false overwrite none).Meets (HarmlessCall ctx) fun _ => True := by
  have above : Away ctx (onDisk ends.toAbs.dropLast) := by
    rw [onDisk_dropLast]
    exact away_parent (away_of_inside checked.inside.2.onDisk)
  unfold movePath
  refine (meets_pathExists trivial).bind fun occupied _ => ?_
  split
  · trivial
  · refine (meets_attempt above).bind fun _ _ => ?_
    refine (meets_clearTarget harmless_of_inside checked.inside.2 overwrite).bind fun _ _ => ?_
    refine (meets_renameOrCopy harmless_of_inside checked.inside.1 checked.inside.2 false).bind
      fun _ _ => ?_
    exact (meets_writeAuditEntry ⟨trivial, trivial⟩ away_audit (fun _ => away_changes)
      _ _ _ _ _ _).bind fun _ _ => trivial

/-- Before its section a call is harmless, and a section it asks for is checked. -/
theorem meets_opening (call : FolderMutationCall) :
    (call.opening ctx).Meets (HarmlessCall ctx) fun asked =>
      ∀ mutation, asked = some mutation → mutation.Checked ctx := by
  cases call with
  | setFolderMetadata path input =>
      refine (meets_checkSet looking_harmless path input).bind fun checked known => ?_
      rcases checked with error | ⟨rel, normalized⟩
      · rintro _ ⟨⟩
      · obtain ⟨rfl, valid, normal⟩ := known rel normalized rfl
        rintro _ ⟨⟩
        exact ⟨valid, input, normal⟩
  | deleteVaultFolder path recursive permanent =>
      refine (meets_checkDelete looking_harmless path recursive).bind fun checked known => ?_
      rcases checked with error | ⟨rel, abs⟩
      · rintro _ ⟨⟩
      · obtain ⟨rfl, valid, located⟩ := known rel abs rfl
        rintro _ ⟨⟩
        exact ⟨valid, located⟩
  | moveVaultPath fromPath toPath folder overwrite =>
      refine (meets_checkMove looking_harmless fromPath toPath folder).bind fun checked known => ?_
      rcases checked with error | ends
      · rintro _ ⟨⟩
      · obtain ⟨rfl, rfl, checked⟩ := known ends rfl
        cases folder with
        | true =>
            rintro _ ⟨⟩
            exact checked
        | false => exact (meets_movePath_file checked overwrite).bind fun _ _ => by rintro _ ⟨⟩

/-- A section that fits when it starts changes the metadata as the tree if it succeeds, and not if
it fails. -/
theorem triple_mutation {view : Option (Place → Option FolderMetadata)} {mutation : FolderMutation}
    (checked : mutation.Checked ctx) :
    Triple ctx false (fun state => Fresh ctx view state ∧ mutation.Fits ctx state.disk)
      (mutation.program ctx) (Ended ctx false view (view.map mutation.effect))
      (Fails ctx false view (view.map mutation.effect)) := by
  cases mutation with
  | set rel normalizedInput =>
      obtain ⟨valid, input, normal⟩ := checked
      rintro state ⟨fresh, _, other, there⟩
      exact triple_toBool (triple_setSection valid other normal) state ⟨fresh, there⟩
  | delete rel abs permanent =>
      obtain ⟨valid, rfl⟩ := checked
      rintro state ⟨fresh, encodes⟩
      exact triple_toBool (triple_deleteSection valid encodes permanent) state fresh
  | move ends overwrite =>
      rintro state ⟨fresh, encodes, room, storable⟩
      exact triple_toBool (triple_moveSection checked encodes overwrite) state
        ⟨⟨fresh, room⟩, storable⟩

end VaultContext

namespace RootCalls

open VaultContext

/-- The metadata that sections make of what a disk held, one after another. -/
def outcome (ctx : VaultContext) (start : VaultDisk) (log : List FolderMutation) :
    Option (Place → Option FolderMetadata) :=
  (ctx.meaning start).map fun view => log.foldl (fun view mutation => mutation.effect view) view

/-- The outcome of one more mutation. -/
theorem outcome_concat (start : VaultDisk) (log : List FolderMutation) (mutation : FolderMutation) :
    outcome ctx start (log ++ [mutation]) = (outcome ctx start log).map mutation.effect := by
  unfold outcome
  rw [Option.map_map]
  congr 1
  funext view
  rw [List.foldl_concat]
  rfl

/-- Between sections the metadata is what the log makes of the first one; a section at work leaves
it so, or changed by its effect, and calls before their sections do no harm. -/
structure Sound (ctx : VaultContext) (start : VaultDisk) (calls : RootCalls) : Prop where
  callers : ∀ caller ∈ calls.callers, caller.rest.Meets (HarmlessCall ctx) fun asked =>
    ∀ mutation, asked = some mutation → mutation.Checked ctx
  waiting : ∀ mutation ∈ calls.waiting, mutation.Checked ctx
  idle : calls.running = none → Means ctx (outcome ctx start calls.log) ⟨calls.disk, false⟩
  working : ∀ work, calls.running = some work → work.rest.Secure ctx.Keeps
    (FsCall.answers true (ctx.settles false))
    (Ended ctx false (outcome ctx start calls.log)
      ((outcome ctx start calls.log).map work.mutation.effect))
    (fun _ => Fails ctx false (outcome ctx start calls.log)
      ((outcome ctx start calls.log).map work.mutation.effect)) ⟨calls.disk, work.touched⟩

variable {start : VaultDisk} {calls next : RootCalls}

/-- HarmlessCall changes of the disk leave what is sound. -/
theorem Sound.disturb (sound : Sound ctx start calls) {disk : VaultDisk} {callers : List Caller}
    (harmless : ∀ caller ∈ callers, caller.rest.Meets (HarmlessCall ctx) fun asked =>
      ∀ mutation, asked = some mutation → mutation.Checked ctx)
    (keeps : ∀ touched, ctx.Keeps ⟨calls.disk, touched⟩ ⟨disk, touched⟩) :
    Sound ctx start { calls with disk := disk, callers := callers } where
  callers := harmless
  waiting := sound.waiting
  idle none := stable_means _ _ _ (sound.idle none) (keeps false)
  working work found := (sound.working work found).stable
    (fun first second => first.trans second) (keeps work.touched)

theorem means_of_fails {view changed : Option (Place → Option FolderMetadata)} {state : VaultState}
    (fails : Fails ctx false view changed state) : Means ctx view state :=
  fails.resolve_right fun both => Bool.false_ne_true both.1

theorem means_of_ended {view changed : Option (Place → Option FolderMetadata)} {succeeded : Bool}
    {state : VaultState} (ended : Ended ctx false view changed succeeded state) :
    Means ctx (if succeeded then changed else view) state := by
  cases succeeded with
  | true => exact ended
  | false => exact means_of_fails ended

theorem mem_of_mem_without {Element : Type 1} {front rest : List Element} {element other : Element}
    (listed : other ∈ front ++ rest) : other ∈ front ++ element :: rest := by
  rw [List.mem_append] at listed ⊢
  exact listed.imp_right (List.mem_cons_of_mem element)

theorem Sound.callerStep (sound : Sound ctx start calls) (step : CallerStep ctx true calls next) :
    Sound ctx start next := by
  cases step with
  | call call =>
      refine sound.disturb (fun caller listed => ?_) fun _ => Keeps.refl _
      rcases List.mem_append.mp listed with old | new
      · exact sound.callers caller old
      · rw [List.mem_singleton.mp new]
        exact meets_opening call
  | act split spares given =>
      have others := sound.callers
      rw [split] at others
      have acting := others _ (List.mem_append_right _ List.mem_cons_self)
      refine sound.disturb (fun caller listed => ?_)
        (keeps_of_answers acting.1 (spares rfl) given)
      rcases List.mem_append.mp listed with first | later
      · exact others caller (List.mem_append_left _ first)
      · rcases List.mem_cons.mp later with rfl | last
        · exact acting.2 _
        · exact others caller (List.mem_append_right _ (List.mem_cons_of_mem _ last))
  | enqueue split =>
      have others := sound.callers
      rw [split] at others
      have asking := others _ (List.mem_append_right _ List.mem_cons_self)
      refine { sound with callers := fun caller listed => ?_, waiting := fun mutation listed => ?_ }
      · exact others caller (mem_of_mem_without listed)
      · rcases List.mem_append.mp listed with old | new
        · exact sound.waiting mutation old
        · rw [List.mem_singleton.mp new]
          exact asking _ rfl
  | leave split ends =>
      have others := sound.callers
      rw [split] at others
      exact { sound with callers := fun caller listed => others caller (mem_of_mem_without listed) }

theorem Sound.sectionStep (sound : Sound ctx start calls) (step : SectionStep ctx true calls next) :
    Sound ctx start next := by
  cases step with
  | start quiet head fits =>
      have others := sound.waiting
      rw [head] at others
      refine ⟨sound.callers, fun mutation listed => others mutation (List.mem_cons_of_mem _ listed),
        by rintro ⟨⟩, ?_⟩
      rintro _ ⟨⟩
      exact triple_mutation (others _ List.mem_cons_self) _ ⟨⟨sound.idle quiet, rfl⟩, fits rfl⟩
  | work found given =>
      refine ⟨sound.callers, sound.waiting, by rintro ⟨⟩, ?_⟩
      rintro _ ⟨⟩
      exact sound.working _ found _ (Keeps.refl _) _ _ given
  | finish found =>
      rename_i mutation succeeded touched
      have means := means_of_ended (sound.working _ found _ (Keeps.refl _))
      refine ⟨sound.callers, sound.waiting, fun _ => ?_, by rintro _ ⟨⟩⟩
      cases succeeded with
      | true =>
          dsimp only
          rw [if_pos rfl, outcome_concat]
          exact means
      | false => exact means
  | fail found =>
      have means := means_of_fails (sound.working _ found _ (Keeps.refl _))
      exact ⟨sound.callers, sound.waiting, fun _ => means, by rintro _ ⟨⟩⟩

/-- An idle machine is sound. -/
theorem sound_idle (followed : ctx.Followed start) : Sound ctx start (idle start) where
  callers caller listed := absurd listed List.not_mem_nil
  waiting mutation listed := absurd listed List.not_mem_nil
  idle _ := ⟨Option.map_id'.symm, followed⟩
  working := by rintro _ ⟨⟩

theorem Sound.run (followed : ctx.Followed start) (run : Run ctx true (RootCalls.idle start) calls) :
    Sound ctx start calls := by
  induction run with
  | nil => exact sound_idle followed
  | caller _ step ih => exact ih.callerStep step
  | queue _ step ih => exact ih.sectionStep step

section Turns

/-- Calls before their sections have changed the disk and asked for more sections. -/
def Disturbed (calls next : RootCalls) : Prop :=
  next.running = calls.running ∧ ∃ more, next.waiting = calls.waiting ++ more

/-- The steps of calls outside their sections are such. -/
theorem CallerStep.disturbed {guarded : Bool} (step : CallerStep ctx guarded calls next) :
    Disturbed calls next := by
  cases step with
  | enqueue split => exact ⟨rfl, _, rfl⟩
  | call call => exact ⟨rfl, [], (List.append_nil _).symm⟩
  | act split spares given => exact ⟨rfl, [], (List.append_nil _).symm⟩
  | leave split ends => exact ⟨rfl, [], (List.append_nil _).symm⟩

/-- However the section at work and as many waiting ones end, and whatever calls before their
sections do in between, the queue is free after them: it has a step until then, and every step it
has leads on. -/
inductive Turns (ctx : VaultContext) : Nat → RootCalls → Prop where
  | free {calls : RootCalls} : calls.running = none → Turns ctx 0 calls
  | start {count : Nat} {calls : RootCalls} : calls.running = none →
      (∀ disturbed, Disturbed calls disturbed → ∃ next, SectionStep ctx false disturbed next) →
      (∀ disturbed, Disturbed calls disturbed →
        ∀ next, SectionStep ctx false disturbed next → Turns ctx count next) →
      Turns ctx (count + 1) calls
  | work {count : Nat} {calls : RootCalls} : calls.running ≠ none →
      (∀ disturbed, Disturbed calls disturbed → ∃ next, SectionStep ctx false disturbed next) →
      (∀ disturbed, Disturbed calls disturbed →
        ∀ next, SectionStep ctx false disturbed next → Turns ctx count next) →
      Turns ctx count calls

theorem Disturbed.queued {count : Nat} (disturbed : Disturbed calls next)
    (queued : count ≤ calls.waiting.length) : count ≤ next.waiting.length := by
  obtain ⟨_, more, waits⟩ := disturbed
  rw [waits, List.length_append]
  exact queued.trans (Nat.le_add_right _ _)

/-- The section at work ends, after as many steps as its program takes. -/
theorem turns_of_running {count : Nat}
    (quiet : ∀ calls : RootCalls, calls.running = none → count ≤ calls.waiting.length →
      Turns ctx count calls)
    {mutation : FolderMutation} {rest : VaultProgram Bool} {touched : Bool}
    (working : calls.running = some ⟨mutation, rest, touched⟩)
    (queued : count ≤ calls.waiting.length) : Turns ctx count calls := by
  induction rest generalizing calls touched with
  | done succeeded =>
      refine .work (by rw [working]; rintro ⟨⟩)
        (fun disturbed disturbs => ⟨_, .finish (disturbs.1.trans working)⟩) ?_
      intro disturbed disturbs next step
      have found := disturbs.1.trans working
      have waits := disturbs.queued queued
      cases step with
      | start none => rw [found] at none; cases none
      | work other => rw [found] at other; cases other
      | finish => exact quiet _ rfl waits
      | fail => exact quiet _ rfl waits
  | thrown failure =>
      refine .work (by rw [working]; rintro ⟨⟩)
        (fun disturbed disturbs => ⟨_, .fail (disturbs.1.trans working)⟩) ?_
      intro disturbed disturbs next step
      have found := disturbs.1.trans working
      have waits := disturbs.queued queued
      cases step with
      | start none => rw [found] at none; cases none
      | work other => rw [found] at other; cases other
      | finish => exact quiet _ rfl waits
      | fail => exact quiet _ rfl waits
  | call request rest ih =>
      refine .work (by rw [working]; rintro ⟨⟩) (fun disturbed disturbs =>
        ⟨_, .work (disturbs.1.trans working) (answers_perform _ request _ rfl)⟩) ?_
      intro disturbed disturbs next step
      have found := disturbs.1.trans working
      have waits := disturbs.queued queued
      cases step with
      | start none => rw [found] at none; cases none
      | work other given =>
          rw [found] at other
          cases other
          exact ih _ rfl waits
      | finish => exact quiet _ rfl waits
      | fail => exact quiet _ rfl waits

theorem turns_of_free (count : Nat) {calls : RootCalls} (free : calls.running = none)
    (queued : count ≤ calls.waiting.length) : Turns ctx count calls := by
  induction count generalizing calls with
  | zero => exact .free free
  | succ count ih =>
      obtain ⟨mutation, rest, head⟩ := List.exists_cons_of_length_pos
        (Nat.lt_of_lt_of_le (Nat.succ_pos count) queued)
      refine .start free (fun disturbed disturbs => ?_) fun disturbed disturbs next step => ?_
      · obtain ⟨same, more, waits⟩ := disturbs
        rw [head, List.cons_append] at waits
        exact ⟨_, .start (same.trans free) waits (by rintro ⟨⟩)⟩
      · have quiet := disturbs.1.trans free
        have waits := disturbs.queued queued
        cases step with
        | start none first fits =>
            rw [first, List.length_cons] at waits
            exact turns_of_running (fun _ => ih) rfl (Nat.le_of_succ_le_succ waits)
        | work found => rw [quiet] at found; cases found
        | finish found => rw [quiet] at found; cases found
        | fail found => rw [quiet] at found; cases found

/-- Every section that waits gets its turn. -/
theorem turns (count : Nat) (queued : count ≤ calls.waiting.length) : Turns ctx count calls := by
  cases working : calls.running with
  | none => exact turns_of_free count working queued
  | some work => exact turns_of_running (fun _ => turns_of_free count) working queued

end Turns

section Performed

/-- A call made while no other one is before its section, up to the queue. -/
def opened (ctx : VaultContext) (calls : RootCalls) (call : FolderMutationCall) : RootCalls :=
  let ran := (call.opening ctx).run (FsCall.perform (ctx.settles false)) ⟨calls.disk, false⟩
  { calls with
    disk := ran.2.disk
    callers := []
    waiting := calls.waiting ++ (match ran.1 with
      | .ok (some mutation) => [mutation]
      | _ => []) }

/-- The first section that waits, performed. -/
def served (ctx : VaultContext) (calls : RootCalls) : RootCalls :=
  match calls.waiting with
  | [] => calls
  | mutation :: rest =>
      let ran := (mutation.program ctx).run (FsCall.perform (ctx.settles false))
        ⟨calls.disk, false⟩
      { calls with
        disk := ran.2.disk
        waiting := rest
        running := none
        log := match ran.1 with
          | .ok true => calls.log ++ [mutation]
          | _ => calls.log }

/-- A caller opens its section in a run. -/
theorem run_opened {guarded : Bool} {first : RootCalls} (run : Run ctx guarded first calls)
    (alone : calls.callers = []) {call : FolderMutationCall}
    (spares : (call.opening ctx).runCheck (FsCall.perform (ctx.settles false))
      (fun request state => request.spares state.disk) ⟨calls.disk, false⟩ = true) :
    Run ctx guarded first (opened ctx calls call) := by
  have ends : ∀ (rest : VaultProgram (Option FolderMutation)) (disk : VaultDisk) (touched : Bool),
      Run ctx guarded first { calls with disk := disk, callers := [⟨rest, touched⟩] } →
      rest.runCheck (FsCall.perform (ctx.settles false))
        (fun request state => request.spares state.disk) ⟨disk, touched⟩ = true →
      Run ctx guarded first
        { calls with
          disk := (rest.run (FsCall.perform (ctx.settles false)) ⟨disk, touched⟩).2.disk
          callers := []
          waiting := calls.waiting ++
            (match (rest.run (FsCall.perform (ctx.settles false)) ⟨disk, touched⟩).1 with
              | .ok (some mutation) => [mutation]
              | _ => []) } := by
    have only (caller : Caller) : [caller] = [] ++ caller :: [] := rfl
    intro rest
    induction rest with
    | done asked =>
        intro disk touched reached _
        cases asked with
        | none =>
            have left := reached.caller (.leave (only _) (.inl rfl))
            simpa [Program.run] using left
        | some mutation =>
            have queued := reached.caller (.enqueue (only _))
            exact queued
    | thrown failure =>
        intro disk touched reached _
        have left := reached.caller (.leave (only _) (.inr ⟨failure, rfl⟩))
        simpa [Program.run] using left
    | call request next ih =>
        intro disk touched reached checked
        obtain ⟨spares, rest⟩ := Bool.and_eq_true_iff.mp checked
        have acted := reached.caller (.act (only _) (fun _ => spares)
          (answers_perform _ request _ rfl))
        exact ih _ _ _ acted rest
  refine ends _ _ _ ?_ spares
  have asked := run.caller (.call calls call)
  rwa [alone] at asked

theorem run_served {guarded : Bool} {first : RootCalls} (run : Run ctx guarded first calls)
    (free : calls.running = none) {mutation : FolderMutation} {rest : List FolderMutation}
    (head : calls.waiting = mutation :: rest) (fits : guarded = true → mutation.Fits ctx calls.disk)
    (good : (mutation.program ctx).runCheck (FsCall.perform (ctx.settles false))
      (FsCall.good guarded) ⟨calls.disk, false⟩ = true) :
    Run ctx guarded first (served ctx calls) := by
  have ends : ∀ (left : VaultProgram Bool) (disk : VaultDisk) (touched : Bool),
      Run ctx guarded first
        { calls with disk := disk, waiting := rest, running := some ⟨mutation, left, touched⟩ } →
      left.runCheck (FsCall.perform (ctx.settles false)) (FsCall.good guarded)
        ⟨disk, touched⟩ = true →
      Run ctx guarded first
        { calls with
          disk := (left.run (FsCall.perform (ctx.settles false)) ⟨disk, touched⟩).2.disk
          waiting := rest
          running := none
          log := match (left.run (FsCall.perform (ctx.settles false)) ⟨disk, touched⟩).1 with
            | .ok true => calls.log ++ [mutation]
            | _ => calls.log } := by
    intro left
    induction left with
    | done succeeded =>
        intro disk touched reached _
        have ended := reached.queue (.finish rfl)
        cases succeeded <;> exact ended
    | thrown failure => exact fun disk touched reached _ => reached.queue (.fail rfl)
    | call request next ih =>
        intro disk touched reached checked
        obtain ⟨good, rest⟩ := Bool.and_eq_true_iff.mp checked
        exact ih _ _ _ (reached.queue (.work rfl (answers_perform _ request _ good))) rest
  unfold served
  rw [head]
  exact ends _ _ _ (run.queue (.start free head fits)) good

theorem running_served (free : calls.running = none) : (served ctx calls).running = none := by
  unfold served
  split
  · exact free
  · rfl

/-- Serving a section changes no caller. -/
theorem callers_served (calls : RootCalls) : (served ctx calls).callers = calls.callers := by
  unfold served
  split <;> rfl

end Performed

end RootCalls

/-- **Folder calls serialize.** Whenever no section is at work in a guarded run, the metadata is
what the sections that succeeded make of it, one after another, and every folder with metadata is
there; in every run each waiting section gets its turn, however those before it end. -/
theorem mutations_serialize {start : VaultDisk} (followed : ctx.Followed start) :
    (∀ calls, RootCalls.Run ctx true (.idle start) calls → calls.running = none →
      ctx.meaning calls.disk = RootCalls.outcome ctx start calls.log ∧
        ctx.Followed calls.disk) ∧
    ∀ calls, RootCalls.Run ctx false (.idle start) calls → ∀ count, count < calls.waiting.length →
      RootCalls.Turns ctx count calls :=
  ⟨fun _ run free => (RootCalls.Sound.run followed run).idle free,
    fun _ _ count queued => RootCalls.turns count queued.le⟩

namespace MutationSample

open FolderSample RootCalls

def deleteCall : FolderMutationCall := .deleteVaultFolder (units "a/b") false true

def markCall : FolderMutationCall := .setFolderMetadata (units "a/b") red

def deletion : FolderMutation := .delete (units "a/b") (plainVault.place ++ [units "a", units "b"]) true

def marking : FolderMutation := .set (units "a/b") red

def deleteWaits : RootCalls := opened plainVault (.idle made.after) deleteCall

def bothWait : RootCalls := opened plainVault deleteWaits markCall

def deleteDone : RootCalls := served plainVault bothWait

def bothDone : RootCalls := served plainVault deleteDone

theorem followed_made : plainVault.Followed made.after :=
  VaultContext.followed_of_absent (by decide +kernel)

def markDone : RootCalls := served plainVault (opened plainVault (.idle made.after) markCall)

end MutationSample

open FolderSample RootCalls MutationSample

theorem mutations_serialize_markDone :
    RootCalls.Run plainVault true (.idle made.after) markDone ∧ markDone.log = [marking] ∧
      plainVault.meaning markDone.disk = outcome plainVault made.after markDone.log ∧
        plainVault.Followed markDone.disk := by
  have waits : RootCalls.Run plainVault true (.idle made.after)
      (opened plainVault (.idle made.after) markCall) := run_opened .nil rfl (by decide +kernel)
  have queue : (opened plainVault (.idle made.after) markCall).waiting = [marking] := by
    decide +kernel
  have there : (opened plainVault (.idle made.after) markCall).disk.isDirectoryAt
      (plainVault.place ++ namesOf (units "a/b")) = true := by decide +kernel
  have done : RootCalls.Run plainVault true (.idle made.after) markDone :=
    run_served waits rfl queue (fun _ => ⟨by decide +kernel, by decide +kernel, there⟩)
      (by decide +kernel)
  exact ⟨done, by decide +kernel,
    (mutations_serialize followed_made).1 markDone done (running_served rfl)⟩

/-- **An entry for a deleted folder.** A folder is marked that was there when this was checked, and
was deleted while the mark waited for its turn. -/
theorem marked_after_delete :
    RootCalls.Run plainVault false (.idle made.after) bothDone ∧
      plainVault.Followed made.after ∧ bothDone.callers = [] ∧ bothDone.waiting = [] ∧
        bothDone.log = [deletion, marking] ∧ ¬ plainVault.Followed bothDone.disk := by
  have first : RootCalls.Run plainVault false (.idle made.after) deleteWaits :=
    run_opened .nil rfl (by decide +kernel)
  have second : RootCalls.Run plainVault false (.idle made.after) bothWait :=
    run_opened first rfl (by decide +kernel)
  have queue : bothWait.waiting = [deletion, marking] := by decide +kernel
  have third : RootCalls.Run plainVault false (.idle made.after) deleteDone :=
    run_served second rfl queue (by rintro ⟨⟩) (by decide +kernel)
  have left : deleteDone.waiting = [marking] := by decide +kernel
  have fourth : RootCalls.Run plainVault false (.idle made.after) bothDone :=
    run_served third (running_served rfl) left (by rintro ⟨⟩) (by decide +kernel)
  have marked : (plainVault.meaning bothDone.disk).any
      (fun view => (view [units "a", units "b"]).isSome) = true := by decide +kernel
  have gone : bothDone.disk.isDirectoryAt
      (plainVault.place ++ [units "a", units "b"]) = false := by decide +kernel
  refine ⟨fourth, followed_made, ?_, by decide +kernel, by decide +kernel, fun followed =>
    VaultContext.not_followed_of_absent marked gone followed⟩
  exact (callers_served deleteDone).trans (callers_served bothWait)

end Kb1Daemon
