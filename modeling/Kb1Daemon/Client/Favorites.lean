import Kb1Daemon.Foundation.JsNumber
import Kb1Daemon.Vault.MetadataView
import Mathlib.Data.List.Nodup

/-! # Favorites

The favorites of the web shell follow the notes and folders that are deleted and renamed. They do
so exactly, with one favorite for each key, as long as no rename leads to the key of a favorite that
stays, and the entry that is toggled or removed does not share its key with another target
(`favorites_follow_iff`).
-/

namespace Kb1Daemon

open JsString

inductive FavoriteKind where
  | note
  | folder
  deriving DecidableEq, Repr

/-- What is pinned. -/
structure FavoriteTarget where
  kind : FavoriteKind
  vaultId : JsString
  path : JsString
  deriving DecidableEq, Repr

structure FavoriteEntry extends FavoriteTarget where
  addedAt : JsNumber
  deriving DecidableEq, Repr

def FavoriteKind.text : FavoriteKind → JsString
  | .note => units "note"
  | .folder => units "folder"

/-- The colon between the parts of a key. -/
def favoriteColon : CodeUnit := 58

/-- The identity of a favorite, as a text. -/
def favoriteKey (e : FavoriteTarget) : JsString :=
  e.kind.text ++ favoriteColon :: (e.vaultId ++ favoriteColon :: e.path)

abbrev Favorites := List FavoriteEntry

namespace Favorites

variable (favorites : Favorites)

/-- A commit of what is kept, if anything goes. -/
def commitKept (kept : FavoriteEntry → Bool) : Favorites :=
  if (favorites.filter kept).length = favorites.length then favorites else favorites.filter kept

/-- A commit of the entries that are moved and of the others, if any is moved. -/
def commitMoved (moved : FavoriteEntry → Option FavoriteEntry) : Favorites :=
  if favorites.any fun e => (moved e).isSome then favorites.map fun e => (moved e).getD e
  else favorites

def toggleFavorite (entry : FavoriteTarget) (now : JsNumber) : Favorites :=
  match favorites.findIdx? fun e => favoriteKey e.toFavoriteTarget = favoriteKey entry with
  | some idx => favorites.eraseIdx idx
  | none => favorites ++ [⟨entry, now⟩]

def removeFavorite (entry : FavoriteTarget) : Favorites :=
  if favorites.any fun e => favoriteKey e.toFavoriteTarget = favoriteKey entry then
    favorites.filter fun e => favoriteKey e.toFavoriteTarget ≠ favoriteKey entry
  else favorites

def favoritesOnNoteDeleted (vaultId path : JsString) : Favorites :=
  favorites.commitKept fun e => !(e.kind = .note && e.vaultId = vaultId && e.path = path)

def favoritesOnNoteRenamed (vaultId oldPath newPath : JsString) : Favorites :=
  if oldPath = newPath then favorites
  else favorites.commitMoved fun e =>
    if e.kind = .note ∧ e.vaultId = vaultId ∧ e.path = oldPath then some { e with path := newPath }
    else none

def favoritesOnFolderDeleted (vaultId path : JsString) : Favorites :=
  favorites.commitKept fun e =>
    if e.vaultId ≠ vaultId then true
    else if e.path = path ∧ e.kind = .folder then false
    else !isUnder path e.path

def favoritesOnFolderRenamed (vaultId oldPath newPath : JsString) : Favorites :=
  if oldPath = newPath then favorites
  else favorites.commitMoved fun e =>
    if e.vaultId ≠ vaultId then none
    else if e.kind = .folder ∧ e.path = oldPath then some { e with path := newPath }
    else if isUnder oldPath e.path then
      some { e with path := newPath ++ slash :: e.path.drop (oldPath.length + 1) }
    else none

end Favorites

/-- A call to the store; `toggle` comes with the time. -/
inductive FavoriteChange where
  | toggle (entry : FavoriteTarget) (now : JsNumber)
  | remove (entry : FavoriteTarget)
  | noteDeleted (vaultId path : JsString)
  | noteRenamed (vaultId oldPath newPath : JsString)
  | folderDeleted (vaultId path : JsString)
  | folderRenamed (vaultId oldPath newPath : JsString)

namespace FavoriteChange

def apply (favorites : Favorites) : FavoriteChange → Favorites
  | .toggle entry now => favorites.toggleFavorite entry now
  | .remove entry => favorites.removeFavorite entry
  | .noteDeleted vaultId path => favorites.favoritesOnNoteDeleted vaultId path
  | .noteRenamed vaultId oldPath newPath => favorites.favoritesOnNoteRenamed vaultId oldPath newPath
  | .folderDeleted vaultId path => favorites.favoritesOnFolderDeleted vaultId path
  | .folderRenamed vaultId oldPath newPath =>
      favorites.favoritesOnFolderRenamed vaultId oldPath newPath

end FavoriteChange

/-- The favorite is the folder or something below it. -/
def FavoriteEntry.IsWithin (e : FavoriteEntry) (vaultId path : JsString) : Prop :=
  e.vaultId = vaultId ∧ namesOf path <+: namesOf e.path ∧ (e.path = path → e.kind = .folder)

instance (e : FavoriteEntry) (vaultId path : JsString) : Decidable (e.IsWithin vaultId path) :=
  inferInstanceAs (Decidable (_ ∧ _ ∧ _))

namespace FavoriteChange

/-- The favorites that a change is about. -/
def Concerns (e : FavoriteEntry) : FavoriteChange → Prop
  | .toggle entry _ => e.toFavoriteTarget = entry
  | .remove entry => e.toFavoriteTarget = entry
  | .noteDeleted vaultId path => e.toFavoriteTarget = ⟨.note, vaultId, path⟩
  | .noteRenamed vaultId oldPath _ => e.toFavoriteTarget = ⟨.note, vaultId, oldPath⟩
  | .folderDeleted vaultId path => e.IsWithin vaultId path
  | .folderRenamed vaultId oldPath _ => e.IsWithin vaultId oldPath

instance (e : FavoriteEntry) : (change : FavoriteChange) → Decidable (change.Concerns e)
  | .toggle entry _ => inferInstanceAs (Decidable (e.toFavoriteTarget = entry))
  | .remove entry => inferInstanceAs (Decidable (e.toFavoriteTarget = entry))
  | .noteDeleted vaultId path =>
      inferInstanceAs (Decidable (e.toFavoriteTarget = ⟨.note, vaultId, path⟩))
  | .noteRenamed vaultId oldPath _ =>
      inferInstanceAs (Decidable (e.toFavoriteTarget = ⟨.note, vaultId, oldPath⟩))
  | .folderDeleted vaultId path => inferInstanceAs (Decidable (e.IsWithin vaultId path))
  | .folderRenamed vaultId oldPath _ => inferInstanceAs (Decidable (e.IsWithin vaultId oldPath))

/-- The path of a favorite that a rename is about: the names below the old path stay. -/
def newPathOf (e : FavoriteEntry) : FavoriteChange → JsString
  | .noteRenamed _ _ newPath => newPath
  | .folderRenamed _ oldPath newPath =>
      Segments.joined slash (namesOf newPath ++ (namesOf e.path).drop (namesOf oldPath).length)
  | _ => e.path

/-- A favorite after a rename. -/
def follow (change : FavoriteChange) (e : FavoriteEntry) : FavoriteEntry :=
  if change.Concerns e then { e with path := change.newPathOf e } else e

/-- What a change should do: the favorites it is about are taken away or moved, or the toggled one
is added, and all others stay as they are and where they are. -/
def Follows (before after : Favorites) : FavoriteChange → Prop
  | .toggle entry now =>
      after = if ∃ e ∈ before, e.toFavoriteTarget = entry then
          before.filter fun e => e.toFavoriteTarget ≠ entry
        else before ++ [⟨entry, now⟩]
  | .noteRenamed vaultId oldPath newPath =>
      after = before.map (noteRenamed vaultId oldPath newPath).follow
  | .folderRenamed vaultId oldPath newPath =>
      after = before.map (folderRenamed vaultId oldPath newPath).follow
  | change => after = before.filter fun e => ¬ change.Concerns e

/-- No favorite that a rename is about gets the key of one that stays. -/
def KeepsApart (favorites : Favorites) (change : FavoriteChange) : Prop :=
  ∀ moved ∈ favorites, change.Concerns moved → ∀ kept ∈ favorites, ¬ change.Concerns kept →
    favoriteKey (change.follow moved).toFavoriteTarget ≠ favoriteKey kept.toFavoriteTarget

instance (favorites : Favorites) (change : FavoriteChange) :
    Decidable (change.KeepsApart favorites) :=
  inferInstanceAs (Decidable (∀ moved ∈ favorites, change.Concerns moved → ∀ kept ∈ favorites,
    ¬ change.Concerns kept →
      favoriteKey (change.follow moved).toFavoriteTarget ≠ favoriteKey kept.toFavoriteTarget))

/-- A rename keeps the keys apart, and what is toggled or removed has a key of its own. -/
def Clear (favorites : Favorites) : FavoriteChange → Prop
  | .toggle entry _ | .remove entry =>
      ∀ e ∈ favorites, favoriteKey e.toFavoriteTarget = favoriteKey entry →
        e.toFavoriteTarget = entry
  | .noteDeleted .. | .folderDeleted .. => True
  | change => change.KeepsApart favorites

instance (favorites : Favorites) : (change : FavoriteChange) → Decidable (change.Clear favorites)
  | .toggle entry _ | .remove entry =>
      inferInstanceAs (Decidable (∀ e ∈ favorites,
        favoriteKey e.toFavoriteTarget = favoriteKey entry → e.toFavoriteTarget = entry))
  | .noteDeleted .. | .folderDeleted .. => inferInstanceAs (Decidable True)
  | .noteRenamed vaultId oldPath newPath =>
      inferInstanceAs (Decidable ((noteRenamed vaultId oldPath newPath).KeepsApart favorites))
  | .folderRenamed vaultId oldPath newPath =>
      inferInstanceAs (Decidable ((folderRenamed vaultId oldPath newPath).KeepsApart favorites))

end FavoriteChange

/-- One favorite for each key. -/
def Favorites.Unique (favorites : Favorites) : Prop :=
  (favorites.map fun e => favoriteKey e.toFavoriteTarget).Nodup

instance (favorites : Favorites) : Decidable favorites.Unique :=
  inferInstanceAs (Decidable (List.Nodup _))

section Keys

variable {first second : FavoriteTarget}

theorem kind_eq_of_favoriteKey (same : favoriteKey first = favoriteKey second) :
    first.kind = second.kind := by
  have heads := congrArg List.head? same
  rcases first with ⟨_ | _, vaultId, path⟩ <;> rcases second with ⟨_ | _, otherId, other⟩
  · rfl
  · exact absurd (show some (110 : CodeUnit) = some 102 from heads) (by decide)
  · exact absurd (show some (102 : CodeUnit) = some 110 from heads) (by decide)
  · rfl

/-- In one vault a key tells the target. -/
theorem eq_of_favoriteKey (same : favoriteKey first = favoriteKey second)
    (vault : first.vaultId = second.vaultId) : first = second := by
  have kinds := kind_eq_of_favoriteKey same
  rcases first with ⟨kind, vaultId, path⟩
  rcases second with ⟨otherKind, otherId, other⟩
  cases kinds
  cases vault
  have rest := (List.cons_eq_cons.mp (List.append_cancel_left same)).2
  exact congrArg (FavoriteTarget.mk kind vaultId)
    (List.cons_eq_cons.mp (List.append_cancel_left rest)).2

end Keys

namespace Favorites

variable {favorites : Favorites}

theorem Unique.eq (unique : favorites.Unique) {first second : FavoriteEntry}
    (firstListed : first ∈ favorites) (secondListed : second ∈ favorites)
    (same : favoriteKey first.toFavoriteTarget = favoriteKey second.toFavoriteTarget) :
    first = second :=
  List.inj_on_of_nodup_map unique firstListed secondListed same

theorem Unique.filter (unique : favorites.Unique) (kept : FavoriteEntry → Bool) :
    Unique (favorites.filter kept) :=
  List.Nodup.sublist (List.filter_sublist.map _) unique

/-- Committing what is kept keeps that. -/
theorem commitKept_eq (kept : FavoriteEntry → Bool) :
    favorites.commitKept kept = favorites.filter kept := by
  unfold commitKept
  split_ifs with whole
  · exact (List.filter_eq_self.mpr (List.length_filter_eq_length_iff.mp whole)).symm
  · rfl

/-- Committing what is moved moves that. -/
theorem commitMoved_eq (moved : FavoriteEntry → Option FavoriteEntry) :
    favorites.commitMoved moved = favorites.map fun e => (moved e).getD e := by
  unfold commitMoved
  split_ifs with any
  · rfl
  · refine (List.map_id favorites).symm.trans (List.map_congr_left fun e listed => ?_)
    have still : moved e = none := by
      rw [← Option.not_isSome_iff_eq_none]
      exact fun moves => any (List.any_eq_true.mpr ⟨e, listed, moves⟩)
    rw [still]
    rfl

/-- Of favorites with one for each key, the first with a key is the only one. -/
theorem eraseP_eq_filter (unique : favorites.Unique) (key : JsString) :
    favorites.eraseP (fun e => decide (favoriteKey e.toFavoriteTarget = key)) =
      favorites.filter fun e => decide (favoriteKey e.toFavoriteTarget ≠ key) := by
  induction favorites with
  | nil => rfl
  | cons e rest ih =>
      obtain ⟨apart, others⟩ := List.nodup_cons.mp unique
      by_cases own : favoriteKey e.toFavoriteTarget = key
      · rw [List.eraseP_cons_of_pos (by simpa using own), List.filter_cons_of_neg (by simp [own]),
          eq_comm, List.filter_eq_self]
        intro other listed
        refine decide_eq_true fun same => apart (List.mem_map.mpr ⟨other, listed, ?_⟩)
        exact same.trans own.symm
      · rw [List.eraseP_cons_of_neg (by simp [own]), List.filter_cons_of_pos (by simp [own]),
          ih others]

theorem toggleFavorite_eq (unique : favorites.Unique) (entry : FavoriteTarget) (now : JsNumber) :
    favorites.toggleFavorite entry now =
      if ∃ e ∈ favorites, favoriteKey e.toFavoriteTarget = favoriteKey entry then
        favorites.filter fun e => favoriteKey e.toFavoriteTarget ≠ favoriteKey entry
      else favorites ++ [⟨entry, now⟩] := by
  have erased := eraseP_eq_filter unique (favoriteKey entry)
  rw [List.eraseP_eq_eraseIdx] at erased
  unfold toggleFavorite
  cases found : favorites.findIdx? fun e =>
      decide (favoriteKey e.toFavoriteTarget = favoriteKey entry) with
  | none =>
      rw [List.findIdx?_eq_none_iff] at found
      rw [if_neg]
      rintro ⟨e, listed, same⟩
      exact absurd same (of_decide_eq_false (found e listed))
  | some idx =>
      rw [found] at erased
      have known : ∃ e ∈ favorites, favoriteKey e.toFavoriteTarget = favoriteKey entry := by
        obtain ⟨within, same, _⟩ := List.findIdx?_eq_some_iff_getElem.mp found
        exact ⟨favorites[idx], List.getElem_mem within, of_decide_eq_true same⟩
      rw [if_pos known]
      exact erased

theorem removeFavorite_eq (entry : FavoriteTarget) :
    favorites.removeFavorite entry =
      favorites.filter fun e => favoriteKey e.toFavoriteTarget ≠ favoriteKey entry := by
  unfold removeFavorite
  split_ifs with any
  · rfl
  · rw [eq_comm, List.filter_eq_self]
    intro e listed
    exact decide_eq_true fun same =>
      any (List.any_eq_true.mpr ⟨e, listed, decide_eq_true same⟩)

end Favorites

section Steps

variable {favorites : Favorites}

/-- A folder that is moved takes what is below it along. -/
theorem folder_moved_eq (e : FavoriteEntry) (vaultId oldPath newPath : JsString) :
    (if e.vaultId ≠ vaultId then none
      else if e.kind = .folder ∧ e.path = oldPath then some { e with path := newPath }
      else if isUnder oldPath e.path then
        some { e with path := newPath ++ slash :: e.path.drop (oldPath.length + 1) }
      else none : Option FavoriteEntry).getD e =
      (FavoriteChange.folderRenamed vaultId oldPath newPath).follow e := by
  have names : ∀ path, Segments.joined slash (namesOf path) = path := Segments.joined_splitOn
  have concerns : (FavoriteChange.folderRenamed vaultId oldPath newPath).Concerns e ↔
      e.IsWithin vaultId oldPath := Iff.rfl
  unfold FavoriteChange.follow
  rw [if_congr concerns rfl rfl]
  by_cases vault : e.vaultId = vaultId
  · rw [if_neg (not_not.mpr vault)]
    by_cases own : e.kind = .folder ∧ e.path = oldPath
    · have within : e.IsWithin vaultId oldPath :=
        ⟨vault, own.2 ▸ List.prefix_refl _, fun _ => own.1⟩
      rw [if_pos own, if_pos within, FavoriteChange.newPathOf, own.2, List.drop_length,
        List.append_nil, names]
      rfl
    · rw [if_neg own]
      by_cases below : isUnder oldPath e.path = true
      · obtain ⟨rest, shape⟩ := isUnder_iff.mp below
        have within : e.IsWithin vaultId oldPath := by
          refine ⟨vault, namesOf_prefix_iff.mpr (.inr ⟨rest, shape⟩), fun same => ?_⟩
          rw [same] at shape
          exact absurd (congrArg List.length shape) (by simp)
        have path : FavoriteChange.newPathOf e (.folderRenamed vaultId oldPath newPath) =
            newPath ++ slash :: rest := by
          rw [FavoriteChange.newPathOf, shape, namesOf_append, List.drop_left]
          unfold namesOf
          rw [Segments.joined_append (List.splitOn_ne_nil slash newPath)
            (List.splitOn_ne_nil slash rest), Segments.joined_splitOn, Segments.joined_splitOn]
        rw [if_pos below, if_pos within, path, shape]
        simp
      · have away : ¬ e.IsWithin vaultId oldPath := by
          rintro ⟨_, inner, folder⟩
          rcases namesOf_prefix_iff.mp inner with same | lower
          · exact own ⟨folder same, same⟩
          · exact below (isUnder_iff.mpr lower)
        rw [if_neg below, if_neg away]
        rfl
  · rw [if_pos vault, if_neg fun within : e.IsWithin vaultId oldPath => vault within.1]
    rfl

theorem favoritesOnFolderRenamed_eq (vaultId oldPath newPath : JsString) :
    favorites.favoritesOnFolderRenamed vaultId oldPath newPath =
      favorites.map (FavoriteChange.folderRenamed vaultId oldPath newPath).follow := by
  unfold Favorites.favoritesOnFolderRenamed
  split_ifs with still
  · subst still
    refine (List.map_id favorites).symm.trans (List.map_congr_left fun e _ => ?_)
    unfold FavoriteChange.follow
    split_ifs with within
    · obtain ⟨_, ⟨rest, shape⟩, _⟩ := within
      have path : FavoriteChange.newPathOf e (.folderRenamed vaultId oldPath oldPath) = e.path := by
        rw [FavoriteChange.newPathOf, ← shape, List.drop_left, shape]
        exact Segments.joined_splitOn e.path
      rw [path]
      rfl
    · rfl
  · rw [Favorites.commitMoved_eq]
    exact List.map_congr_left fun e _ => folder_moved_eq e vaultId oldPath newPath

/-- The note at a path. -/
theorem note_eq_iff (e : FavoriteEntry) (vaultId path : JsString) :
    e.toFavoriteTarget = ⟨.note, vaultId, path⟩ ↔
      e.kind = .note ∧ e.vaultId = vaultId ∧ e.path = path := by
  rcases e with ⟨⟨kind, ownId, ownPath⟩, addedAt⟩
  exact FavoriteTarget.mk.injEq .. ▸ Iff.rfl

theorem favoritesOnNoteRenamed_eq (vaultId oldPath newPath : JsString) :
    favorites.favoritesOnNoteRenamed vaultId oldPath newPath =
      favorites.map (FavoriteChange.noteRenamed vaultId oldPath newPath).follow := by
  have concerns : ∀ e : FavoriteEntry, (FavoriteChange.noteRenamed vaultId oldPath newPath).Concerns e ↔
      e.kind = .note ∧ e.vaultId = vaultId ∧ e.path = oldPath := fun e =>
    note_eq_iff e vaultId oldPath
  unfold Favorites.favoritesOnNoteRenamed
  split_ifs with still
  · refine (List.map_id favorites).symm.trans (List.map_congr_left fun e _ => ?_)
    unfold FavoriteChange.follow
    split_ifs with own
    · rw [FavoriteChange.newPathOf, ← still, ← ((concerns e).mp own).2.2]
      rfl
    · rfl
  · rw [Favorites.commitMoved_eq]
    refine List.map_congr_left fun e _ => ?_
    unfold FavoriteChange.follow
    by_cases own : e.kind = .note ∧ e.vaultId = vaultId ∧ e.path = oldPath
    · rw [if_pos own, if_pos ((concerns e).mpr own)]
      rfl
    · rw [if_neg own, if_neg fun about => own ((concerns e).mp about)]
      rfl

theorem favoritesOnNoteDeleted_eq (vaultId path : JsString) :
    favorites.favoritesOnNoteDeleted vaultId path =
      favorites.filter fun e => ¬ (FavoriteChange.noteDeleted vaultId path).Concerns e := by
  rw [Favorites.favoritesOnNoteDeleted, Favorites.commitKept_eq]
  refine List.filter_congr fun e _ => ?_
  have concerns : (FavoriteChange.noteDeleted vaultId path).Concerns e ↔
      e.kind = .note ∧ e.vaultId = vaultId ∧ e.path = path := note_eq_iff e vaultId path
  simp [concerns, Bool.or_assoc]

theorem favoritesOnFolderDeleted_eq (vaultId path : JsString) :
    favorites.favoritesOnFolderDeleted vaultId path =
      favorites.filter fun e => ¬ (FavoriteChange.folderDeleted vaultId path).Concerns e := by
  rw [Favorites.favoritesOnFolderDeleted, Favorites.commitKept_eq]
  refine List.filter_congr fun e _ => ?_
  have concerns : (FavoriteChange.folderDeleted vaultId path).Concerns e ↔
      e.vaultId = vaultId ∧ ((e.path = path ∧ e.kind = .folder) ∨ isUnder path e.path = true) := by
    refine and_congr_right fun _ => ?_
    rw [namesOf_prefix_iff, ← isUnder_iff]
    constructor
    · rintro ⟨same | below, folder⟩
      · exact .inl ⟨same, folder same⟩
      · exact .inr below
    · rintro (own | below)
      · exact ⟨.inl own.1, fun _ => own.2⟩
      · refine ⟨.inr below, fun same => ?_⟩
        obtain ⟨rest, shape⟩ := isUnder_iff.mp below
        rw [same] at shape
        exact absurd (congrArg List.length shape) (by simp)
  split_ifs with vault own
  · rw [eq_comm, decide_eq_true_eq]
    exact fun about => vault (concerns.mp about).1
  · have about := concerns.mpr ⟨not_not.mp vault, .inl own⟩
    exact (decide_eq_false (not_not.mpr about)).symm
  · by_cases below : isUnder path e.path = true
    · have about := concerns.mpr ⟨not_not.mp vault, .inr below⟩
      rw [below, decide_eq_false (not_not.mpr about)]
      rfl
    · rw [Bool.eq_false_iff.mpr below, Bool.not_false, eq_comm, decide_eq_true_eq]
      intro about
      exact (concerns.mp about).2.elim own below

end Steps

namespace FavoriteChange

variable {favorites : Favorites} {change : FavoriteChange}

/-- A rename keeps the keys apart exactly when no moved favorite gets the key of one that stays;
that two moved ones get one key cannot be. -/
theorem unique_map_follow_iff (unique : favorites.Unique)
    (apart : ∀ first second, change.Concerns first → change.Concerns second →
      favoriteKey (change.follow first).toFavoriteTarget =
        favoriteKey (change.follow second).toFavoriteTarget →
      first.toFavoriteTarget = second.toFavoriteTarget) :
    Favorites.Unique (favorites.map change.follow) ↔ change.KeepsApart favorites := by
  have stays : ∀ e, ¬ change.Concerns e → change.follow e = e := fun e other => if_neg other
  have whole : (favorites.map change.follow).map (fun e => favoriteKey e.toFavoriteTarget) =
      favorites.map fun e => favoriteKey (change.follow e).toFavoriteTarget := by
    rw [List.map_map]
    rfl
  have once : favorites.Nodup := List.Nodup.of_map _ unique
  unfold Favorites.Unique
  rw [whole, List.nodup_map_iff_inj_on once]
  constructor
  · intro injective moved movedListed moves kept keptListed other same
    rw [← stays kept other] at same
    rw [injective moved movedListed kept keptListed same] at moves
    exact other moves
  · intro clear first firstListed second secondListed same
    by_cases firstMoves : change.Concerns first
    · by_cases secondMoves : change.Concerns second
      · exact unique.eq firstListed secondListed
          (congrArg favoriteKey (apart first second firstMoves secondMoves same))
      · rw [stays second secondMoves] at same
        exact absurd same (clear first firstListed firstMoves second secondListed secondMoves)
    · by_cases secondMoves : change.Concerns second
      · rw [stays first firstMoves] at same
        exact absurd same.symm
          (clear second secondListed secondMoves first firstListed firstMoves)
      · rw [stays first firstMoves, stays second secondMoves] at same
        exact unique.eq firstListed secondListed same

/-- The names of a favorite that is moved with a folder. -/
theorem namesOf_newPathOf {vaultId oldPath newPath : JsString} {e : FavoriteEntry} {rest : Place}
    (shape : namesOf oldPath ++ rest = namesOf e.path) :
    namesOf (newPathOf e (.folderRenamed vaultId oldPath newPath)) = namesOf newPath ++ rest := by
  have below : newPathOf e (.folderRenamed vaultId oldPath newPath) =
      Segments.joined slash (namesOf newPath ++ rest) := by
    rw [newPathOf, ← shape, List.drop_left]
  rw [below]
  refine List.splitOn_intercalate slash ?_ ?_
  · intro name listed
    rcases List.mem_append.mp listed with first | second
    · exact Segments.not_mem_of_mem_splitOn newPath name first
    · refine Segments.not_mem_of_mem_splitOn e.path name ?_
      change name ∈ namesOf e.path
      rw [← shape]
      exact List.mem_append_right _ second
  · exact List.append_ne_nil_of_left_ne_nil (List.splitOn_ne_nil slash newPath) _

theorem folder_apart {vaultId oldPath newPath : JsString} {first second : FavoriteEntry}
    (firstMoves : (folderRenamed vaultId oldPath newPath).Concerns first)
    (secondMoves : (folderRenamed vaultId oldPath newPath).Concerns second)
    (same : favoriteKey ((folderRenamed vaultId oldPath newPath).follow first).toFavoriteTarget =
      favoriteKey ((folderRenamed vaultId oldPath newPath).follow second).toFavoriteTarget) :
    first.toFavoriteTarget = second.toFavoriteTarget := by
  unfold follow at same
  rw [if_pos firstMoves, if_pos secondMoves] at same
  obtain ⟨firstVault, ⟨firstRest, firstShape⟩, _⟩ := firstMoves
  obtain ⟨secondVault, ⟨secondRest, secondShape⟩, _⟩ := secondMoves
  have kinds := kind_eq_of_favoriteKey same
  have vaults : first.vaultId = second.vaultId := firstVault.trans secondVault.symm
  have paths := congrArg (fun target => namesOf target.path) (eq_of_favoriteKey same vaults)
  dsimp only at kinds paths
  rw [namesOf_newPathOf firstShape, namesOf_newPathOf secondShape,
    List.append_cancel_left_eq] at paths
  rw [paths, secondShape] at firstShape
  have path := namesOf_injective firstShape
  rcases first with ⟨⟨firstKind, firstId, firstPath⟩, _⟩
  rcases second with ⟨⟨secondKind, secondId, secondPath⟩, _⟩
  cases kinds
  cases vaults
  cases path
  rfl

variable (favorites change)

/-- **One change of the favorites.** -/
theorem step_iff (unique : favorites.Unique) :
    (change.apply favorites).Unique ∧ change.Follows favorites (change.apply favorites) ↔
      change.Clear favorites := by
  have shorter : ∀ entry now, favorites.filter (fun e : FavoriteEntry =>
        decide (favoriteKey e.toFavoriteTarget ≠ favoriteKey entry)) ≠
      favorites ++ [⟨entry, now⟩] := by
    intro entry now same
    have bound := List.length_filter_le (fun e : FavoriteEntry =>
      decide (favoriteKey e.toFavoriteTarget ≠ favoriteKey entry)) favorites
    rw [same, List.length_append, List.length_singleton] at bound
    omega
  have kept : ∀ entry, (∀ e ∈ favorites, favoriteKey e.toFavoriteTarget = favoriteKey entry →
        e.toFavoriteTarget = entry) ↔
      favorites.filter (fun e => decide (favoriteKey e.toFavoriteTarget ≠ favoriteKey entry)) =
        favorites.filter fun e => decide (e.toFavoriteTarget ≠ entry) := by
    intro entry
    constructor
    · intro own
      refine List.filter_congr fun e listed => ?_
      rw [decide_eq_decide]
      exact not_congr ⟨own e listed, congrArg favoriteKey⟩
    · intro same e listed shared
      by_contra other
      have left : e ∈ favorites.filter fun e => decide (e.toFavoriteTarget ≠ entry) :=
        List.mem_filter.mpr ⟨listed, decide_eq_true other⟩
      rw [← same] at left
      exact of_decide_eq_true (List.mem_filter.mp left).2 shared
  cases change with
  | toggle entry now =>
      rw [apply, Favorites.toggleFavorite_eq unique, Follows, Clear]
      by_cases known : ∃ e ∈ favorites, favoriteKey e.toFavoriteTarget = favoriteKey entry
      · rw [if_pos known]
        by_cases pinned : ∃ e ∈ favorites, e.toFavoriteTarget = entry
        · rw [if_pos pinned]
          exact (and_iff_right (unique.filter _)).trans (kept entry).symm
        · rw [if_neg pinned]
          refine iff_of_false (fun follows => shorter entry now follows.2) fun own => ?_
          obtain ⟨e, listed, same⟩ := known
          exact pinned ⟨e, listed, own e listed same⟩
      · have fresh : ¬ ∃ e ∈ favorites, e.toFavoriteTarget = entry := by
          rintro ⟨e, listed, rfl⟩
          exact known ⟨e, listed, rfl⟩
        rw [if_neg known, if_neg fresh]
        refine iff_of_true ⟨?_, rfl⟩ fun e listed same => absurd ⟨e, listed, same⟩ known
        unfold Favorites.Unique
        rw [List.map_append, List.map_singleton]
        refine List.Nodup.append unique (List.nodup_singleton _) ?_
        rw [List.disjoint_singleton]
        intro inside
        obtain ⟨e, listed, same⟩ := List.mem_map.mp inside
        exact known ⟨e, listed, same⟩
  | remove entry =>
      rw [apply, Favorites.removeFavorite_eq]
      exact (and_iff_right (unique.filter _)).trans (kept entry).symm
  | noteDeleted vaultId path =>
      rw [apply, favoritesOnNoteDeleted_eq]
      exact iff_of_true ⟨unique.filter _, rfl⟩ trivial
  | folderDeleted vaultId path =>
      rw [apply, favoritesOnFolderDeleted_eq]
      exact iff_of_true ⟨unique.filter _, rfl⟩ trivial
  | noteRenamed vaultId oldPath newPath =>
      rw [apply, favoritesOnNoteRenamed_eq]
      exact (and_iff_left rfl).trans (unique_map_follow_iff unique
        fun first second firstMoves secondMoves _ => firstMoves.trans secondMoves.symm)
  | folderRenamed vaultId oldPath newPath =>
      rw [apply, favoritesOnFolderRenamed_eq]
      exact (and_iff_left rfl).trans (unique_map_follow_iff unique
        fun first second firstMoves secondMoves => folder_apart firstMoves secondMoves)

end FavoriteChange

/-- Something holds at every step of a run, of the favorites before it. -/
def Throughout (holds : Favorites → FavoriteChange → Prop) : Favorites → List FavoriteChange → Prop
  | _, [] => True
  | favorites, change :: changes =>
      holds favorites change ∧ Throughout holds (change.apply favorites) changes

instance (holds : Favorites → FavoriteChange → Prop)
    [∀ favorites change, Decidable (holds favorites change)] :
    ∀ favorites changes, Decidable (Throughout holds favorites changes)
  | _, [] => inferInstanceAs (Decidable True)
  | favorites, change :: changes =>
      haveI := instDecidableThroughout holds (change.apply favorites) changes
      inferInstanceAs (Decidable (_ ∧ _))

/-- **Favorites follow their files.** In a run of the store every change leaves one favorite for
each key, and takes away, moves and adds exactly the favorites that it is about, exactly when every
change of the run is clear: no moved favorite gets the key of one that stays, and what is toggled or
removed shares its key with no other target. -/
theorem favorites_follow_iff (favorites : Favorites) (unique : favorites.Unique)
    (changes : List FavoriteChange) :
    Throughout (fun before change => (change.apply before).Unique ∧
        change.Follows before (change.apply before)) favorites changes ↔
      Throughout (fun before change => change.Clear before) favorites changes := by
  induction changes generalizing favorites with
  | nil => exact Iff.rfl
  | cons change changes ih =>
      rw [Throughout, Throughout, FavoriteChange.step_iff favorites change unique]
      constructor
      · rintro ⟨clear, rest⟩
        have next := (FavoriteChange.step_iff favorites change unique).mpr clear
        exact ⟨clear, (ih _ next.1).mp rest⟩
      · rintro ⟨clear, rest⟩
        have next := (FavoriteChange.step_iff favorites change unique).mpr clear
        exact ⟨clear, (ih _ next.1).mpr rest⟩

/-- Two notes are pinned, and the first one is renamed. -/
def pinnedRun (newPath : JsString) : List FavoriteChange :=
  [.toggle ⟨.note, units "v", units "a.md"⟩ (.ofNat 1),
    .toggle ⟨.note, units "v", units "b.md"⟩ (.ofNat 2),
    .noteRenamed (units "v") (units "a.md") newPath]

theorem favorites_follow_iff_renamed :
    Throughout (fun before change => (change.apply before).Unique ∧
      change.Follows before (change.apply before)) [] (pinnedRun (units "c.md")) :=
  (favorites_follow_iff [] (by decide) (pinnedRun (units "c.md"))).mpr (by decide)

/-- The second note was deleted elsewhere and is still pinned when the first one gets its name. -/
theorem favorites_share_key :
    ¬ Throughout (fun before change => (change.apply before).Unique ∧
      change.Follows before (change.apply before)) [] (pinnedRun (units "b.md")) := by
  intro all
  exact absurd all.2.2.1.1 (by decide)

end Kb1Daemon
