import Kb1Daemon.Foundation.HostText
import Kb1Daemon.Manager.Paths
import Mathlib.Data.List.Nodup
import Mathlib.Data.List.Perm.Basic

/-! # The target of a wikilink

A wikilink names a note by its path, by its basename or by the end of its path. The first rule
takes the first path of the listing that fits and the others want a single one, so a link has one
target in every order of the listing exactly when at most one path is the target as it is written,
or with an extension (`resolveLinkTarget_settled_iff`).
-/

namespace Kb1Daemon

open JsString

structure LivePath where
  path : JsString
  noteId : JsString
  deriving DecidableEq, Repr

def resolvableExtensions : List JsString := [units ".md", units ".txt"]

/-- The loop over the extensions; the first one that ends the text is taken off. -/
def stripEditorExtension (s : JsString) : JsString :=
  match resolvableExtensions.find? fun ext => ext.isSuffixOf s with
  | some ext => s.take (s.length - ext.length)
  | none => s

def basenameNoExt (path : JsString) : JsString :=
  stripEditorExtension ((path.splitOn slash).getLastD [])

/-- The test of the first loop: the path as it is written, or with an extension. -/
def LivePath.isWritten (raw : JsString) (candidate : LivePath) : Bool :=
  candidate.path = raw || resolvableExtensions.any fun ext => candidate.path = raw ++ ext

/-- The test of the second loop. -/
def LivePath.hasBasename (toLowerCase : JsString → JsString) (target : JsString)
    (candidate : LivePath) : Bool :=
  toLowerCase (basenameNoExt candidate.path) = target

/-- The test of the third loop. -/
def LivePath.endsWithTarget (rawNoExt : JsString) (candidate : LivePath) : Bool :=
  resolvableExtensions.any fun ext =>
    candidate.path = rawNoExt ++ ext || (slash :: (rawNoExt ++ ext)).isSuffixOf candidate.path

/-- A loop that looks for the only hit: the first one, and whether there was another. -/
def soleLoop {Item : Type} (hit : Item → Bool) : List Item → Option Item → Option Item × Bool
  | [], sole => (sole, false)
  | candidate :: rest, sole =>
      if hit candidate then
        match sole with
        | none => soleLoop hit rest (some candidate)
        | some first => (some first, true)
      else soleLoop hit rest sole

/-- `sole !== null && !multiple`. -/
def soleHit {Item : Type} (hit : Item → Bool) (items : List Item) : Option Item :=
  match soleLoop hit items none with
  | (sole, false) => sole
  | (_, true) => none

def resolveLinkTarget (toLowerCase : JsString → JsString) (raw : JsString)
    (livePaths : List LivePath) : Option LivePath :=
  match livePaths.find? (LivePath.isWritten raw) with
  | some candidate => some candidate
  | none =>
      let rawNoExt := stripEditorExtension raw
      match soleHit (LivePath.hasBasename toLowerCase (toLowerCase rawNoExt)) livePaths with
      | some sole => some sole
      | none =>
          if slash ∈ rawNoExt then soleHit (LivePath.endsWithTarget rawNoExt) livePaths else none

section Loops

variable {Item : Type} {hit : Item → Bool} {items : List Item} {item : Item}

theorem soleLoop_some (first : Item) :
    soleLoop hit items (some first) = (some first, items.any hit) := by
  induction items with
  | nil => rfl
  | cons candidate rest ih =>
      rw [soleLoop, List.any_cons]
      split_ifs with own
      · rw [own, Bool.true_or]
      · rw [ih, Bool.eq_false_iff.mpr own, Bool.false_or]

/-- The loop finds a hit when it is the only one. -/
theorem soleHit_eq_some_iff : soleHit hit items = some item ↔ items.filter hit = [item] := by
  unfold soleHit
  induction items with
  | nil => simp [soleLoop]
  | cons candidate rest ih =>
      rw [soleLoop]
      by_cases own : hit candidate = true
      · rw [if_pos own, List.filter_cons_of_pos own, soleLoop_some]
        by_cases more : rest.any hit = true
        · rw [more]
          obtain ⟨other, listed, hits⟩ := List.any_eq_true.mp more
          have kept : other ∈ rest.filter hit := List.mem_filter.mpr ⟨listed, hits⟩
          constructor
          · rintro ⟨⟩
          · intro single
            rw [(List.cons_eq_cons.mp single).2] at kept
            cases kept
        · have none : rest.filter hit = [] := by
            rw [List.filter_eq_nil_iff]
            exact fun other listed hits => more (List.any_eq_true.mpr ⟨other, listed, hits⟩)
          rw [Bool.eq_false_iff.mpr more, none, List.cons_eq_cons, Option.some_inj]
          exact (and_iff_left rfl).symm
      · rw [if_neg own, List.filter_cons_of_neg own]
        exact ih

theorem soleHit_perm {other : List Item} (same : other.Perm items) :
    soleHit hit other = soleHit hit items := by
  refine Option.ext fun item => ?_
  rw [soleHit_eq_some_iff, soleHit_eq_some_iff, ← List.perm_singleton, ← List.perm_singleton]
  exact ⟨(same.filter hit).symm.trans, (same.filter hit).trans⟩

/-- The first hit does not depend on the order exactly when there is at most one. -/
theorem find?_perm_iff [DecidableEq Item] :
    (∀ other : List Item, other.Perm items → other.find? hit = items.find? hit) ↔
      ∀ first ∈ items, ∀ second ∈ items, hit first = true → hit second = true → first = second := by
  constructor
  · intro steady first firstListed second secondListed firstHits secondHits
    have leads : ∀ item ∈ items, hit item = true → items.find? hit = some item := by
      intro item listed hits
      rw [← steady _ (List.perm_cons_erase listed).symm]
      exact List.find?_cons_of_pos hits
    rw [leads first firstListed firstHits] at leads
    exact Option.some.inj (leads second secondListed secondHits)
  · intro single other same
    cases found : items.find? hit with
    | none =>
        rw [List.find?_eq_none] at found ⊢
        exact fun item listed => found item (same.mem_iff.mp listed)
    | some item =>
        have hits := List.find?_some found
        have listed := List.mem_of_find?_eq_some found
        obtain ⟨first, firstFound⟩ : ∃ first, other.find? hit = some first :=
          Option.isSome_iff_exists.mp
            (List.find?_isSome.mpr ⟨item, same.mem_iff.mpr listed, hits⟩)
        rw [firstFound]
        congr 1
        exact single first (same.mem_iff.mp (List.mem_of_find?_eq_some firstFound)) item listed
          (List.find?_some firstFound) hits

end Loops

/-- The note is the only one of the listing that is hit. -/
structure Sole (hit : LivePath → Bool) (livePaths : List LivePath) (note : LivePath) : Prop where
  listed : note ∈ livePaths
  hits : hit note = true
  only : ∀ other ∈ livePaths, hit other = true → other = note

theorem soleHit_eq_some_iff_sole {hit : LivePath → Bool} {livePaths : List LivePath}
    {note : LivePath} (distinct : (livePaths.map LivePath.path).Nodup) :
    soleHit hit livePaths = some note ↔ Sole hit livePaths note := by
  rw [soleHit_eq_some_iff]
  constructor
  · intro single
    have kept : note ∈ livePaths.filter hit := by
      rw [single]
      exact List.mem_singleton_self note
    refine ⟨(List.mem_filter.mp kept).1, (List.mem_filter.mp kept).2, fun other listed hits => ?_⟩
    have also : other ∈ livePaths.filter hit := List.mem_filter.mpr ⟨listed, hits⟩
    rw [single] at also
    exact List.mem_singleton.mp also
  · intro sole
    have kept : note ∈ livePaths.filter hit := List.mem_filter.mpr ⟨sole.listed, sole.hits⟩
    have all : ∀ other ∈ livePaths.filter hit, other = note := fun other listed =>
      sole.only other (List.mem_filter.mp listed).1 (List.mem_filter.mp listed).2
    have once : (livePaths.filter hit).Nodup := (List.Nodup.of_map _ distinct).filter hit
    rw [List.eq_replicate_of_mem all] at once kept ⊢
    have positive := List.length_pos_of_mem kept
    rw [List.length_replicate] at positive
    have single := List.nodup_replicate.mp once
    rw [show (livePaths.filter hit).length = 1 by omega]
    rfl

/-- What a link owes its reader: one target in every order of the listing, the path itself where
there is one, and else only what fits alone. -/
structure Settled (toLowerCase : JsString → JsString) (raw : JsString)
    (livePaths : List LivePath) : Prop where
  anyOrder : ∀ other : List LivePath, other.Perm livePaths →
    resolveLinkTarget toLowerCase raw other = resolveLinkTarget toLowerCase raw livePaths
  itself : ∀ note ∈ livePaths, note.path = raw →
    resolveLinkTarget toLowerCase raw livePaths = some note
  only : (∀ note ∈ livePaths, note.isWritten raw = false) →
    ∀ note, resolveLinkTarget toLowerCase raw livePaths = some note →
      Sole (LivePath.hasBasename toLowerCase (toLowerCase (stripEditorExtension raw)))
          livePaths note ∨
        (¬ ∃ other, Sole (LivePath.hasBasename toLowerCase (toLowerCase (stripEditorExtension raw)))
            livePaths other) ∧
          Sole (LivePath.endsWithTarget (stripEditorExtension raw)) livePaths note

section Resolving

variable {toLowerCase : JsString → JsString} {raw : JsString} {livePaths : List LivePath}

theorem resolveLinkTarget_of_found {note : LivePath}
    (found : livePaths.find? (LivePath.isWritten raw) = some note) :
    resolveLinkTarget toLowerCase raw livePaths = some note := by
  rw [resolveLinkTarget, found]

theorem find?_eq_none_of_unwritten
    (unwritten : ∀ note ∈ livePaths, note.isWritten raw = false) :
    livePaths.find? (LivePath.isWritten raw) = none := by
  rw [List.find?_eq_none]
  exact fun note listed => Bool.eq_false_iff.mp (unwritten note listed)

/-- The rules that want a single note do not see the order. -/
theorem resolveLinkTarget_perm {other : List LivePath} (same : other.Perm livePaths)
    (first : other.find? (LivePath.isWritten raw) = livePaths.find? (LivePath.isWritten raw)) :
    resolveLinkTarget toLowerCase raw other = resolveLinkTarget toLowerCase raw livePaths := by
  simp only [resolveLinkTarget, first, soleHit_perm same]

theorem isWritten_self (note : LivePath) : note.isWritten note.path = true := by
  rw [LivePath.isWritten, decide_eq_true rfl, Bool.true_or]

end Resolving

/-- **Link targets and the order of the listing.** A link has one target in every order of the
listing, the path itself where there is one and else only what fits alone, exactly when at most one
listed path is the target as it is written or with an extension. -/
theorem resolveLinkTarget_settled_iff (toLowerCase : JsString → JsString) (raw : JsString)
    (livePaths : List LivePath) (distinct : (livePaths.map LivePath.path).Nodup) :
    Settled toLowerCase raw livePaths ↔
      ∀ first ∈ livePaths, ∀ second ∈ livePaths, first.isWritten raw = true →
        second.isWritten raw = true → first = second := by
  constructor
  · intro settled
    rw [← find?_perm_iff]
    intro other same
    have steady := settled.anyOrder other same
    cases found : livePaths.find? (LivePath.isWritten raw) with
    | none =>
        rw [List.find?_eq_none] at found ⊢
        exact fun note listed => found note (same.mem_iff.mp listed)
    | some note =>
        have written := List.find?_some found
        have listed := List.mem_of_find?_eq_some found
        obtain ⟨first, firstFound⟩ := Option.isSome_iff_exists.mp
          (List.find?_isSome.mpr ⟨note, same.mem_iff.mpr listed, written⟩)
        rw [resolveLinkTarget_of_found found, resolveLinkTarget_of_found firstFound] at steady
        rw [firstFound, Option.some.inj steady]
  · intro single
    have steady := find?_perm_iff.mpr single
    refine ⟨fun other same => resolveLinkTarget_perm same (steady other same), ?_, ?_⟩
    · rintro note listed rfl
      have written := isWritten_self note
      obtain ⟨first, found⟩ := Option.isSome_iff_exists.mp
        (List.find?_isSome.mpr ⟨note, listed, written⟩)
      rw [resolveLinkTarget_of_found found, single first (List.mem_of_find?_eq_some found) note
        listed (List.find?_some found) written]
    · intro unwritten note resolved
      rw [resolveLinkTarget, find?_eq_none_of_unwritten unwritten] at resolved
      dsimp only at resolved
      cases based : soleHit (LivePath.hasBasename toLowerCase
          (toLowerCase (stripEditorExtension raw))) livePaths with
      | some sole =>
          rw [based] at resolved
          obtain rfl := Option.some.inj resolved
          exact .inl ((soleHit_eq_some_iff_sole distinct).mp based)
      | none =>
          rw [based] at resolved
          dsimp only at resolved
          split_ifs at resolved
          refine .inr ⟨?_, (soleHit_eq_some_iff_sole distinct).mp resolved⟩
          rintro ⟨other, sole⟩
          rw [(soleHit_eq_some_iff_sole distinct).mpr sole] at based
          cases based

/-- A note and a text of one name. -/
def twinPaths : List LivePath := [⟨units "a.md", units "1"⟩, ⟨units "a.txt", units "2"⟩]

theorem resolveLinkTarget_settled_written :
    Settled HostText.plain.toLowerCase (units "a.md") twinPaths :=
  (resolveLinkTarget_settled_iff HostText.plain.toLowerCase (units "a.md") twinPaths
    (by decide)).mpr (by decide)

/-- The link `[[a]]` leads to the note or to the text, whichever is listed first; and the link
`[[a.md]]` leads away from `a.md` where `a.md.txt` is listed before it. -/
theorem resolveLinkTarget_depends_on_order :
    ¬ Settled HostText.plain.toLowerCase (units "a") twinPaths ∧
      ¬ Settled HostText.plain.toLowerCase (units "a.md")
        [⟨units "a.md.txt", units "1"⟩, ⟨units "a.md", units "2"⟩] := by
  constructor
  · intro settled
    have same := settled.anyOrder twinPaths.reverse (List.reverse_perm _)
    exact absurd same (by decide)
  · intro settled
    have own := settled.itself ⟨units "a.md", units "2"⟩ (by decide) rfl
    exact absurd own (by decide)

end Kb1Daemon
