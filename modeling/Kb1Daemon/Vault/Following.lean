import Kb1Daemon.Vault.Mutations

/-! # Folder metadata over runs of calls

Calls that make, move, delete and mark folders, one after another. In a run whose disk is steady,
whose paths have no lone surrogates, and whose moves overwrite no folder above the one they move and
keep every moved path storable, the stored metadata is that of folders that are there, and changes
as the tree does (`metadata_follows`).
-/

namespace Kb1Daemon

open JsString

/-- The calls on folders. -/
inductive FolderCall where
  | makeVaultFolder (path : JsString)
  | moveVaultPath (fromPath toPath : JsString) (overwrite : Bool)
  | deleteVaultFolder (path : JsString) (recursive permanent : Bool)
  | setFolderMetadata (path : JsString) (input : FolderMetadataInput)

namespace FolderCall

/-- Run the call, and say whether it succeeds. -/
def program (ctx : VaultContext) : FolderCall → VaultProgram Bool
  | makeVaultFolder path => do return (← ctx.makeVaultFolder path).toBool
  | moveVaultPath fromPath toPath overwrite => do
      return (← ctx.moveVaultPath fromPath toPath true overwrite).toBool
  | deleteVaultFolder path recursive permanent => do
      return (← ctx.deleteVaultFolder path recursive permanent).toBool
  | setFolderMetadata path input => do return (← ctx.setFolderMetadata path input).toBool

/-- What a call that succeeds does to the metadata. -/
def effect : FolderCall → (Place → Option FolderMetadata) → Place → Option FolderMetadata
  | makeVaultFolder _ => id
  | moveVaultPath fromPath toPath _ => moved (namesOf fromPath) (namesOf toPath)
  | deleteVaultFolder path _ _ => removed (namesOf path)
  | setFolderMetadata path input =>
      match normalizeFolderMetadataInput input with
      | .ok normalized => remarked (namesOf path) normalized
      | .error _ => id

theorem effect_setFolderMetadata {path : JsString} {input normalized : FolderMetadataInput}
    (normal : normalizeFolderMetadataInput input = .ok normalized) :
    (setFolderMetadata path input).effect = remarked (namesOf path) normalized := by
  unfold effect
  dsimp only
  rw [normal]

/-- What is marked, moved or deleted has no lone surrogate in its path. No metadata is set on a folder
with the name of the prototype, and a move overwrites no folder above the one it moves and keeps
every moved path storable. -/
def Fits (ctx : VaultContext) (disk : VaultDisk) : FolderCall → Prop
  | makeVaultFolder _ => True
  | moveVaultPath fromPath toPath overwrite =>
      (Utf8.isWellFormed fromPath = true ∧ Utf8.isWellFormed toPath = true) ∧
        (overwrite = true → relativeDescendantPath toPath fromPath = none) ∧
          ∀ map, ctx.storedMetadata disk = some map → FitsMove map fromPath toPath
  | deleteVaultFolder path _ _ => Utf8.isWellFormed path = true
  | setFolderMetadata path _ => Utf8.isWellFormed path = true ∧ path ≠ prototypeName

end FolderCall

/-- A call with its outcome, between two disks. -/
structure FolderStep where
  before : VaultDisk
  call : FolderCall
  outcome : Except VaultFailure Bool
  after : VaultDisk

/-- The call can do so. On a steady disk no call of the file system fails between the first change
of the operation and its write of the metadata, and no removal fails after a part of it. -/
def FolderStep.Possible (ctx : VaultContext) (steady : Bool) (step : FolderStep) : Prop :=
  ∃ touched, (step.call.program ctx).Runs (FsCall.answers steady (ctx.settles true))
    ⟨step.before, false⟩ step.outcome ⟨step.after, touched⟩

/-- Calls run one after another. -/
inductive FolderRun (possible : FolderStep → Prop) : VaultDisk → List FolderStep → VaultDisk → Prop
  where
  | nil (disk : VaultDisk) : FolderRun possible disk [] disk
  | cons {disk last : VaultDisk} {step : FolderStep} {steps : List FolderStep} :
      step.before = disk → possible step → FolderRun possible step.after steps last →
        FolderRun possible disk (step :: steps) last

namespace VaultContext

/-- The metadata at the end of a call. -/
def Ended (ctx : VaultContext) (settled : Bool)
    (view changed : Option (Place → Option FolderMetadata)) (succeeded : Bool)
    (state : VaultState) : Prop :=
  if succeeded then ctx.Means changed state else Fails ctx settled view changed state

variable {ctx : VaultContext} {settled : Bool}
  {view changed : Option (Place → Option FolderMetadata)} {before : VaultState → Prop}

/-- The end of a call is stable. -/
theorem stable_ended (succeeded : Bool) : Stable ctx (Ended ctx settled view changed succeeded) := by
  cases succeeded with
  | true => exact stable_means changed
  | false => exact stable_fails

/-- The result of a section, as whether it succeeds. -/
theorem triple_toBool {Value : Type} {program : VaultProgram (VaultResult Value)}
    (triple : Triple ctx settled before program (Ends ctx view changed)
      (Fails ctx settled view changed)) :
    Triple ctx settled before (do return (← program).toBool) (Ended ctx settled view changed)
      (Fails ctx settled view changed) := by
  refine Triple.bind triple fun result => ?_
  cases result with
  | error error =>
      exact fun state means later keeps => .inl (stable_means view state later means keeps)
  | ok value => exact fun state means later keeps => stable_means changed state later means keeps

/-- The last `catch` of an operation makes a failure an error. -/
theorem triple_classified {Value : Type} {program : VaultProgram (VaultResult Value)}
    {classify : VaultFailure → Option VaultError}
    (triple : Triple ctx settled before program (Ends ctx view changed)
      (Fails ctx settled view changed)) :
    Triple ctx settled before (do return (← classified classify program).toBool)
      (Ended ctx settled view changed) (Fails ctx settled view changed) := by
  have caught : Triple ctx settled before (classified classify program)
      (fun result => Ended ctx settled view changed result.toBool)
      (Fails ctx settled view changed) := by
    refine Triple.handle (Fails ctx settled view changed)
      (triple.weaken (fun _ => id) ?_ fun _ => id) fun failure => ?_
    · intro result state ends
      cases result with
      | error error => exact .inl ends
      | ok value => exact ends
    · cases classify failure with
      | none => exact Triple.thrown stable_fails
      | some error => exact fun state failed later keeps => stable_fails state later failed keeps
  exact Triple.bind caught fun result state ended later keeps =>
    stable_ended _ state later ended keeps

section Checks

variable (stable : Stable ctx before) (fresh : ∀ state, before state → Fresh ctx view state)
include stable fresh

/-- The check of a path keeps what holds. -/
theorem triple_validatedPath (input : JsString) (kind : VaultPathKind) :
    Triple ctx settled before (validatedPath input kind)
      (fun rel state => before state ∧ rel = input ∧ validateVaultPath input kind = true)
      (Means ctx view) := by
  unfold validatedPath
  cases refused : invalidPathReason input kind with
  | some reason =>
      exact fun state held later keeps => stable_means view state later (fresh state held).1 keeps
  | none =>
      exact fun state held later keeps =>
        ⟨stable state later held keeps, rfl, invalidPathReason_eq_none_iff.mp refused⟩

theorem triple_vaultPath {rel : JsString} (valid : validateVaultPath rel .folder = true) :
    Triple ctx settled before (ctx.vaultPath rel)
      (fun place state => before state ∧ place = ctx.place ++ namesOf rel) (Means ctx view) := by
  unfold vaultPath
  cases resolved : resolveVaultPath ctx.cwd ctx.root rel with
  | error failure =>
      exact fun state held later keeps => stable_means view state later (fresh state held).1 keeps
  | ok place =>
      exact fun state held later keeps => ⟨stable state later held keeps,
        resolveVaultPath_of_plain (walked_of_valid valid).plain resolved⟩

/-- The checks of a set find a directory. -/
theorem triple_checkSet (path : JsString) (input : FolderMetadataInput) :
    Triple ctx settled before (ctx.checkSet path input)
      (fun checked state => before state ∧ ∀ rel normalized, checked = .ok (rel, normalized) →
        state.disk.isDirectoryAt (onDisk (ctx.place ++ namesOf rel)) = true) (Means ctx view) := by
  unfold checkSet
  refine Triple.bind (triple_validatedPath stable fresh path .folder) fun rel => ?_
  rintro state ⟨held, rfl, valid⟩
  cases normal : normalizeFolderMetadataInput input with
  | error error =>
      exact fun later keeps => ⟨stable state later held keeps, by rintro _ _ ⟨⟩⟩
  | ok normalized =>
      refine Triple.bind (triple_vaultPath stable fresh valid) (fun place => ?_) state held
      rintro state ⟨held, rfl⟩
      refine Triple.bind (triple_statOrNull stable (stable_means view)
        fun _ held _ => (fresh _ held).1) (fun stat => ?_) state held
      rintro state ⟨held, there⟩
      split
      · exact fun later keeps => ⟨stable state later held keeps, by rintro _ _ ⟨⟩⟩
      · rename_i found
        refine fun later keeps => ⟨stable state later held keeps, ?_⟩
        rintro _ _ ⟨⟩
        obtain ⟨folder, same, kind⟩ := Option.map_eq_some_iff.mp (not_not.mp found)
        exact keeps.folders _ (there folder same kind)

theorem triple_checkMove (fromPath toPath : JsString) :
    Triple ctx settled before (ctx.checkMove fromPath toPath true)
      (fun checked state => before state ∧ ∀ ends, checked = .ok ends →
        state.disk.isDirectoryAt (onDisk ends.fromAbs) = true) (Means ctx view) := by
  unfold checkMove
  refine Triple.bind (triple_validatedPath stable fresh fromPath .folder) fun source => ?_
  rintro state ⟨held, rfl, valid⟩
  refine Triple.bind (triple_validatedPath stable fresh toPath .folder) (fun target => ?_) state held
  rintro state ⟨held, rfl, allowed⟩
  split
  · exact fun later keeps => ⟨stable state later held keeps, by rintro _ ⟨⟩⟩
  refine Triple.bind (triple_vaultPath stable fresh valid) (fun fromAbs => ?_) state held
  rintro state ⟨held, _⟩
  refine Triple.bind (triple_vaultPath stable fresh allowed) (fun toAbs => ?_) state held
  rintro state ⟨held, _⟩
  refine Triple.bind (triple_statOrNull stable (stable_means view)
    fun _ held _ => (fresh _ held).1) (fun stat => ?_) state held
  rintro state ⟨held, there⟩
  split
  · exact fun later keeps => ⟨stable state later held keeps, by rintro _ ⟨⟩⟩
  · rename_i found
    refine fun later keeps => ⟨stable state later held keeps, ?_⟩
    rintro _ ⟨⟩
    obtain ⟨folder, same, kind⟩ := Option.map_eq_some_iff.mp (not_not.mp found)
    exact keeps.folders _ (there folder same kind)

theorem triple_checkDelete (path : JsString) (recursive : Bool) :
    Triple ctx settled before (ctx.checkDelete path recursive) (fun _ => before)
      (Means ctx view) := by
  have means : ∀ state, before state → state.touched = false → ctx.Means view state :=
    fun state held _ => (fresh state held).1
  have folder : Triple ctx settled before (ctx.folderAt path) (fun _ => before) (Means ctx view) := by
    unfold folderAt
    refine Triple.bind (triple_validatedPath stable fresh path .folder) fun rel => ?_
    rintro state ⟨held, rfl, valid⟩
    refine Triple.bind (triple_vaultPath stable fresh valid) (fun place => ?_) state held
    rintro state ⟨held, _⟩
    refine Triple.bind (triple_statOrNull stable (stable_means view) means) (fun stat => ?_) state
      held
    rintro state ⟨held, _⟩
    split <;> exact fun later keeps => stable state later held keeps
  unfold checkDelete
  refine Triple.bind folder fun found => ?_
  cases found with
  | error error => exact Triple.done stable
  | ok located =>
      refine Triple.bind (Triple.keeps (fun disk => VaultDisk.readdir disk (onDisk located.2))
        (fun _ _ _ given => given) stable (stable_means view) ?_ (fun _ _ part => part.elim) means)
        fun children => ?_
      · intro state value disk done
        rw [VaultDisk.readdir_eq_ok done]
        exact Keeps.refl state
      · split <;> exact Triple.done stable

end Checks

/-- Where everything is allowed, looking is. -/
theorem looking_all : ctx.Looking fun _ => True := fun _ _ => ⟨trivial, trivial⟩

/-- Making a folder keeps the metadata. -/
theorem triple_makeVaultFolder (path : JsString) :
    Triple ctx settled (Fresh ctx view) (ctx.makeVaultFolder path)
      (fun _ => ctx.Means view) (Means ctx view) := by
  have fails : ∀ state, Fresh ctx view state → state.touched = false → ctx.Means view state :=
    fun _ fresh _ => fresh.1
  unfold makeVaultFolder classified
  refine Triple.handle (Means ctx view) ?_ fun failure => ?_
  · refine Triple.bind (triple_validatedPath stable_fresh (fun _ => id) path .folder) fun rel => ?_
    rintro state ⟨fresh, rfl, valid⟩
    refine Triple.bind (triple_vaultPath stable_fresh (fun _ => id) valid) (fun place => ?_) state
      fresh
    rintro state ⟨fresh, rfl⟩
    have inside : ctx.Inside (ctx.place ++ namesOf rel) := inside_of_walked (walked_of_valid valid)
    have away := away_of_inside inside.onDisk
    refine Triple.bind (triple_pathExists stable_fresh (stable_means view) fails) (fun existed => ?_)
      state fresh
    refine Triple.bind (triple_mkdir away stable_fresh (stable_means view) fails) fun _ => ?_
    cases existed with
    | true => exact fun state fresh later keeps => stable_means view state later fresh.1 keeps
    | false =>
        refine Triple.bind (triple_writeAuditEntry stable_fresh (stable_means view) fails _ _ _ _ _
          _) fun audit => ?_
        exact fun state fresh later keeps => stable_means view state later fresh.1 keeps
  · cases pathOrCollision failure <;>
      exact fun state means later keeps => stable_means view state later means keeps

theorem triple_setFolderMetadata {path : JsString} (encodes : Utf8.isWellFormed path = true)
    (other : path ≠ prototypeName) (input : FolderMetadataInput) :
    Triple ctx settled (Fresh ctx view)
      ((FolderCall.setFolderMetadata path input).program ctx)
      (Ended ctx settled view (view.map (FolderCall.setFolderMetadata path input).effect))
      (Fails ctx settled view (view.map (FolderCall.setFolderMetadata path input).effect)) := by
  refine triple_classified (Triple.bind (fun state fresh => (Triple.failing (triple_checkSet stable_fresh
    (fun _ => id) path input) state fresh).meets (meets_checkSet looking_all path input))
    fun checked => ?_)
  rintro state ⟨⟨fresh, there⟩, known⟩
  rcases checked with error | ⟨rel, normalized⟩
  · exact fun later keeps => stable_means view state later fresh.1 keeps
  · obtain ⟨rfl, valid, normal⟩ := known rel normalized rfl
    have directory := there rel normalized rfl
    rw [onDisk_placed encodes] at directory
    rw [FolderCall.effect_setFolderMetadata normal]
    exact triple_setSection valid other normal state ⟨fresh, directory⟩

theorem triple_deleteVaultFolder {path : JsString} (encodes : Utf8.isWellFormed path = true)
    (recursive permanent : Bool) :
    Triple ctx settled (Fresh ctx view)
      ((FolderCall.deleteVaultFolder path recursive permanent).program ctx)
      (Ended ctx settled view (view.map (removed (namesOf path))))
      (Fails ctx settled view (view.map (removed (namesOf path)))) := by
  refine triple_classified (Triple.bind (fun state fresh => (Triple.failing (triple_checkDelete
    stable_fresh (fun _ => id) path recursive) state fresh).meets
      (meets_checkDelete looking_all path recursive)) fun checked => ?_)
  rintro state ⟨fresh, known⟩
  rcases checked with error | ⟨rel, place⟩
  · exact fun later keeps => stable_means view state later fresh.1 keeps
  · obtain ⟨rfl, valid, rfl⟩ := known rel place rfl
    exact triple_deleteSection valid encodes permanent state fresh

theorem triple_moveVaultPath (fromPath toPath : JsString) (overwrite : Bool) :
    Triple ctx settled
      (fun state => Fresh ctx view state ∧
        (FolderCall.moveVaultPath fromPath toPath overwrite).Fits ctx state.disk)
      ((FolderCall.moveVaultPath fromPath toPath overwrite).program ctx)
      (Ended ctx settled view (view.map (moved (namesOf fromPath) (namesOf toPath))))
      (Fails ctx settled view (view.map (moved (namesOf fromPath) (namesOf toPath)))) := by
  rintro state ⟨start, encodes, apart, fits⟩
  have stable : Stable ctx fun state => Fresh ctx view state ∧
      ∀ map, ctx.storedMetadata state.disk = some map → FitsMove map fromPath toPath :=
    fun before after held keeps => ⟨stable_fresh before after held.1 keeps,
      fun map stored => held.2 map (keeps.stored.symm.trans stored)⟩
  have checks : Triple ctx settled _ _ _ _ :=
    triple_checkMove stable (fun _ held => held.1) fromPath toPath
  refine triple_classified (Triple.bind (fun state held => (checks.failing state held).meets
    (meets_checkMove looking_all fromPath toPath true)) fun checked => ?_) state ⟨start, fits⟩
  rintro state ⟨⟨⟨fresh, storable⟩, there⟩, known⟩
  rcases checked with error | ends
  · exact fun later keeps => stable_means view state later fresh.1 keeps
  · obtain ⟨rfl, rfl, checked⟩ := known ends rfl
    have spelled : Encodes ends := ⟨encodes.1, encodes.2⟩
    refine triple_moveSection checked spelled overwrite state ⟨⟨fresh, ?_⟩, storable⟩
    cases overwrite with
    | true => exact .inl (relativeDescendantPath_eq_none_iff.mp (apart rfl))
    | false =>
        by_cases above : namesOf ends.toPath <+: namesOf ends.fromPath
        · refine .inr ⟨rfl, ?_⟩
          by_contra file
          rw [Bool.not_eq_true] at file
          refine not_inside_of_file file (there ends rfl) ?_
          rwa [checked.toOnDisk spelled, checked.fromOnDisk spelled, List.prefix_append_right_inj]
        · exact .inl above

/-- **A call on its own.** A call that fits and succeeds changes the metadata as the tree, and one
that fails does so or changes nothing. -/
theorem triple_call (call : FolderCall) :
    Triple ctx settled (fun state => Fresh ctx view state ∧ call.Fits ctx state.disk)
      (call.program ctx) (Ended ctx settled view (view.map call.effect))
      (Fails ctx settled view (view.map call.effect)) := by
  cases call with
  | makeVaultFolder path =>
      have same : view.map (FolderCall.makeVaultFolder path).effect = view := Option.map_id'
      rw [same]
      refine Triple.bind (Triple.failing ((triple_makeVaultFolder path).weaken (fun _ held => held.1)
        (fun _ _ => id) fun _ => id)) fun result => ?_
      cases result with
      | error error => exact fun state means later keeps => .inl (stable_means view state later means keeps)
      | ok value => exact fun state means later keeps => stable_means view state later means keeps
  | moveVaultPath fromPath toPath overwrite => exact triple_moveVaultPath fromPath toPath overwrite
  | deleteVaultFolder path recursive permanent =>
      exact fun state held => triple_deleteVaultFolder held.2 recursive permanent state held.1
  | setFolderMetadata path input =>
      exact fun state held => triple_setFolderMetadata held.2.1 held.2.2 input state held.1

end VaultContext

/-- What a call does to the metadata: the effect of the call if it succeeds, and the effect or
nothing if it fails. -/
def FolderStep.Follows (ctx : VaultContext) (step : FolderStep) : Prop :=
  (step.outcome = .ok true →
    ctx.meaning step.after = (ctx.meaning step.before).map step.call.effect) ∧
  (ctx.meaning step.after = ctx.meaning step.before ∨
    ctx.meaning step.after = (ctx.meaning step.before).map step.call.effect)

variable {ctx : VaultContext}

/-- One call keeps the metadata that of folders that are there, and changes it as the tree. -/
theorem FolderStep.follows {step : FolderStep} (possible : step.Possible ctx true)
    (fits : step.call.Fits ctx step.before) (start : ctx.Followed step.before) :
    step.Follows ctx ∧ ctx.Followed step.after := by
  obtain ⟨touched, run⟩ := possible
  obtain ⟨ended, failed⟩ := Program.Secure.runs VaultContext.Keeps.refl
    (VaultContext.triple_call step.call _ ⟨⟨⟨rfl, start⟩, rfl⟩, fits⟩) run
  have last : VaultContext.Fails ctx true (ctx.meaning step.before)
      ((ctx.meaning step.before).map step.call.effect) ⟨step.after, touched⟩ := by
    cases found : step.outcome with
    | error failure => exact failed failure found
    | ok succeeded =>
        have ends := ended succeeded found
        cases succeeded with
        | true => exact .inr ⟨rfl, ends⟩
        | false => exact ends
  refine ⟨⟨fun succeeds => (ended true succeeds).1, ?_⟩, ?_⟩
  · exact last.imp And.left fun both => both.2.1
  · exact last.elim And.right fun both => both.2.2

/-- **Folder metadata follows folders.** Over every run of calls that fit, on a disk where no call
of the file system fails between the first change of an operation and its write of the metadata, nor
after a part of a removal, the stored metadata is that of folders that are there, and every call
changes it as the tree. -/
theorem metadata_follows {initial last : VaultDisk} {steps : List FolderStep}
    (run : FolderRun (fun step => step.Possible ctx true ∧ step.call.Fits ctx step.before) initial
      steps last) (start : ctx.Followed initial) :
    ctx.Followed last ∧ ∀ step ∈ steps, step.Follows ctx ∧ ctx.Followed step.after := by
  induction run with
  | nil disk => exact ⟨start, fun step listed => absurd listed List.not_mem_nil⟩
  | cons starts allowed _ ih =>
      subst starts
      obtain ⟨follows, after⟩ := FolderStep.follows allowed.1 allowed.2 start
      obtain ⟨ends, others⟩ := ih after
      refine ⟨ends, fun step listed => ?_⟩
      rcases List.mem_cons.mp listed with rfl | later
      · exact ⟨follows, after⟩
      · exact others step later

theorem VaultContext.followed_of_absent {disk : VaultDisk}
    (absent : disk.get ctx.foldersPlace = none) : ctx.Followed disk := by
  intro view known names present
  unfold VaultContext.meaning VaultContext.storedMetadata at known
  rw [absent] at known
  rw [← Option.some.inj known] at present
  cases present

/-- Metadata of a folder that is not there. -/
theorem VaultContext.not_followed_of_absent {disk : VaultDisk} {names : Place}
    (marked : (ctx.meaning disk).any (fun view => (view names).isSome) = true)
    (gone : disk.isDirectoryAt (ctx.place ++ names) = false) : ¬ ctx.Followed disk := by
  intro followed
  cases known : ctx.meaning disk with
  | none =>
      rw [known] at marked
      cases marked
  | some view =>
      rw [known, Option.any_some] at marked
      rw [followed view known names marked] at gone
      cases gone

/-- The step in which a call is performed on one device where nothing fails. -/
def FolderCall.performed (ctx : VaultContext) (call : FolderCall) (disk : VaultDisk) : FolderStep :=
  let run := (call.program ctx).run (FsCall.perform (ctx.settles true)) ⟨disk, false⟩
  ⟨disk, call, run.1, run.2.disk⟩

theorem FolderCall.possible_performed {steady : Bool} {call : FolderCall} {disk : VaultDisk}
    (checked : (call.program ctx).runCheck (FsCall.perform (ctx.settles true))
      (FsCall.good steady) ⟨disk, false⟩ = true) :
    (call.performed ctx disk).Possible ctx steady :=
  ⟨_, Program.runs_run (fun request state => answers_perform _ request state) _ _ checked⟩

/-- A vault under the root directory. -/
def plainVault : VaultContext :=
  ⟨[], units "/vault", 1, ⟨id, id, fun _ _ => true⟩, by decide +kernel⟩

def bareDisk : VaultDisk := Posix.Disk.rootOnly directoryMode 0

def red : FolderMetadataInput := ⟨some (some (units "#ff0000"))⟩

namespace FolderSample

def made : FolderStep := (FolderCall.makeVaultFolder (units "a/b")).performed plainVault bareDisk

def painted : FolderStep :=
  (FolderCall.setFolderMetadata (units "a/b") red).performed plainVault made.after

def deleted : FolderStep :=
  (FolderCall.deleteVaultFolder (units "a") true true).performed plainVault painted.after

def overwritten : FolderStep :=
  (FolderCall.moveVaultPath (units "a/b") (units "a") true).performed plainVault painted.after

theorem followed_bareDisk : plainVault.Followed bareDisk :=
  VaultContext.followed_of_absent (by decide +kernel)

end FolderSample

open FolderSample

theorem metadata_follows_deleted :
    painted.outcome = .ok true ∧ deleted.outcome = .ok true ∧
      ∀ step ∈ [made, painted, deleted], step.Follows plainVault ∧
        plainVault.Followed step.after := by
  have first : made.Possible plainVault true :=
    FolderCall.possible_performed (by decide +kernel)
  have second : painted.Possible plainVault true :=
    FolderCall.possible_performed (by decide +kernel)
  have third : deleted.Possible plainVault true :=
    FolderCall.possible_performed (by decide +kernel)
  have other : Utf8.isWellFormed (units "a/b") = true ∧ units "a/b" ≠ prototypeName := by
    decide +kernel
  have spelled : Utf8.isWellFormed (units "a") = true := by decide +kernel
  have run : FolderRun (fun step => step.Possible plainVault true ∧
      step.call.Fits plainVault step.before) bareDisk [made, painted, deleted] deleted.after := by
    refine .cons rfl ?_ (.cons rfl ?_ (.cons rfl ?_ (.nil _)))
    exacts [⟨first, trivial⟩, ⟨second, other⟩, ⟨third, spelled⟩]
  exact ⟨by decide +kernel, by decide +kernel, (metadata_follows run followed_bareDisk).2⟩

/-- **Metadata that stays behind.** A move of a folder over the one above it removes both, and
their metadata stays. -/
theorem overwritten_above :
    FolderRun (fun step => step.Possible plainVault false) bareDisk [made, painted, overwritten]
        overwritten.after ∧
      plainVault.Followed bareDisk ∧ ¬ plainVault.Followed overwritten.after := by
  have first : made.Possible plainVault false :=
    FolderCall.possible_performed (by decide +kernel)
  have second : painted.Possible plainVault false :=
    FolderCall.possible_performed (by decide +kernel)
  have third : overwritten.Possible plainVault false :=
    FolderCall.possible_performed (by decide +kernel)
  refine ⟨.cons rfl first (.cons rfl second (.cons rfl third (.nil _))), followed_bareDisk, fun followed => ?_⟩
  have left : (plainVault.meaning overwritten.after).any
      (fun view => (view [units "a", units "b"]).isSome) = true := by decide +kernel
  exact VaultContext.not_followed_of_absent left (by decide +kernel) followed

end Kb1Daemon
