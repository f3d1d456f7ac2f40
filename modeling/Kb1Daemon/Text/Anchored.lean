import Kb1Daemon.Foundation.Occurrences
import Kb1Daemon.Foundation.Utf8
import Kb1Daemon.Text.LineEndings

/-! # Anchored splices

An anchored splice looks for the old text and its anchors in the normalised note and replaces the
old text in the raw note. The table of raw offsets leads from one to the other: it cuts the note
where no line ending is cut (`rawOffsets_cut`), so what is replaced is the old text up to its line
endings, and what is kept keeps its own (`applyAnchoredSplice_spec`).
-/

namespace Kb1Daemon

open JsString

def spliceBytesLimit : Nat := 64 * 1024

def documentBytesLimit : Nat := 1024 * 1024

/-- A number that is not finite is `none`. -/
structure AnchoredSpliceRequest where
  oldText : JsString
  newText : JsString
  before : Option JsString
  after : Option JsString
  occurrence : Option (Option ℚ)

inductive AnchoredSpliceResult where
  | ok (content : JsString)
  | notFound
  | ambiguous (matchCount : Nat)
  | tooLargeSplice (limitBytes : Nat)
  | tooLargeDocument (currentBytes limitBytes : Nat)
  deriving DecidableEq, Repr

def utf8ByteLength (value : JsString) : Nat := Utf8.byteLength value

def findAllSubstringOffsets (haystack needle : JsString) : List Nat :=
  if needle.length = 0 then [] else haystack.searchAll needle (haystack.length + 1) 0

/-- A normalised text, and for each of its offsets the offset in the raw text. -/
structure NormalizedContent where
  value : JsString
  rawOffsets : List Nat
  deriving DecidableEq, Repr

/-- Another unit, at its raw offset, in front. -/
def NormalizedContent.cons (char : CodeUnit) (rawIndex : Nat) (rest : NormalizedContent) :
    NormalizedContent :=
  ⟨char :: rest.value, rawIndex :: rest.rawOffsets⟩

/-- The loop of `normalizeWithRawOffsets` over the text from an offset on. -/
def normalizeLoop : Nat → JsString → NormalizedContent
  | rawIndex, [] => ⟨[], [rawIndex]⟩
  | rawIndex, [char] =>
      (normalizeLoop (rawIndex + 1) []).cons (if char = carriageReturn then lineFeed else char)
        rawIndex
  | rawIndex, char :: next :: rest =>
      if char = carriageReturn then
        if next = lineFeed then (normalizeLoop (rawIndex + 2) rest).cons lineFeed rawIndex
        else (normalizeLoop (rawIndex + 1) (next :: rest)).cons lineFeed rawIndex
      else (normalizeLoop (rawIndex + 1) (next :: rest)).cons char rawIndex

def normalizeWithRawOffsets (content : JsString) : NormalizedContent := normalizeLoop 0 content

/-- `items[index]`. -/
def elementAt (items : List Nat) (index : Option ℚ) : Option Nat :=
  index.bind fun index =>
    if index.den = 1 ∧ 0 ≤ index.num then items[index.num.toNat]? else none

/-- `value.slice(0, stop)`; without a number the whole value. -/
def sliceTo (value : JsString) (stop : Option Nat) : JsString := stop.elim value value.take

/-- `value.slice(start)`; without a number the whole value. -/
def sliceFrom (value : JsString) (start : Option Nat) : JsString := start.elim value value.drop

/-- The match that is replaced. -/
def matchOffset (matched : List Nat) (occurrence : Option (Option ℚ)) :
    Except AnchoredSpliceResult Nat :=
  match matched with
  | [] => .error .notFound
  | [only] => .ok only
  | matched =>
      match occurrence with
      | some occurrence =>
          match elementAt matched (occurrence.map (· - 1)) with
          | none => .error .notFound
          | some picked => .ok picked
      | none => .error (.ambiguous matched.length)

namespace AnchoredSpliceRequest

variable (request : AnchoredSpliceRequest)

def normalOld : JsString := lfNormalize request.oldText

def normalNew : JsString := lfNormalize request.newText

def normalBefore : JsString := (request.before.map lfNormalize).getD []

def normalAfter : JsString := (request.after.map lfNormalize).getD []

def needle : JsString := request.normalBefore ++ request.normalOld ++ request.normalAfter

/-- The splice is too large. -/
def TooLarge : Prop :=
  spliceBytesLimit < utf8ByteLength request.normalOld ∨
    spliceBytesLimit < utf8ByteLength request.normalNew

instance : Decidable request.TooLarge := inferInstanceAs (Decidable (_ ∨ _))

end AnchoredSpliceRequest

/-- The document an edit leaves, if it is not too large. -/
def withinDocumentLimit (next : JsString) : AnchoredSpliceResult :=
  let nextBytes := utf8ByteLength next
  if documentBytesLimit < nextBytes then .tooLargeDocument nextBytes documentBytesLimit
  else .ok next

def applyAnchoredSplice (content : JsString) (request : AnchoredSpliceRequest) :
    AnchoredSpliceResult :=
  if request.TooLarge then .tooLargeSplice spliceBytesLimit
  else
    let normalizedContent := normalizeWithRawOffsets content
    let matched :=
      if content = [] ∧ request.needle = [] then [0]
      else findAllSubstringOffsets normalizedContent.value request.needle
    match matchOffset matched request.occurrence with
    | .error rejected => rejected
    | .ok offset =>
        let oldOffset := offset + request.normalBefore.length
        let rawOldOffset := normalizedContent.rawOffsets[oldOffset]?
        let rawOldEndOffset :=
          normalizedContent.rawOffsets[oldOffset + request.normalOld.length]?
        withinDocumentLimit
          (sliceTo content rawOldOffset ++ request.normalNew ++ sliceFrom content rawOldEndOffset)

/-- The offsets of the matches of a splice in the normalised note. -/
def AnchoredSpliceRequest.matches (request : AnchoredSpliceRequest) (content : JsString) :
    List Nat :=
  if request.needle = [] then if content = [] then [0] else []
  else (lfNormalize content).occurrences request.needle

/-- A splice has one match, or picks one of its matches by number. -/
def Picks (matched : List Nat) (occurrence : Option (Option ℚ)) : Prop :=
  matched.length = 1 ∨
    ∃ number : Nat, occurrence = some (some (number : ℚ)) ∧ 1 ≤ number ∧ number ≤ matched.length

/-- The match that is picked. -/
def PicksOffset (matched : List Nat) (occurrence : Option (Option ℚ)) (offset : Nat) : Prop :=
  matched = [offset] ∨
    ∃ number : Nat, occurrence = some (some (number : ℚ)) ∧ matched.length ≠ 1 ∧ 1 ≤ number ∧
      matched[number - 1]? = some offset

section RawOffsets

/-- The table of a raw text leads from each offset of the normalised text to a cut of the raw one. -/
structure Cuts (rawIndex : Nat) (text : JsString) (normalized : NormalizedContent) : Prop where
  value : normalized.value = lfNormalize text
  cut : ∀ offset ≤ (lfNormalize text).length, ∃ count ≤ text.length,
    normalized.rawOffsets[offset]? = some (rawIndex + count) ∧
      lfNormalize (text.take count) = (lfNormalize text).take offset ∧
      lfNormalize (text.drop count) = (lfNormalize text).drop offset
  low : ∀ raw ∈ normalized.rawOffsets, rawIndex ≤ raw
  sorted : normalized.rawOffsets.Pairwise (· ≤ ·)

/-- An empty text has one cut. -/
theorem cuts_nil (rawIndex : Nat) : Cuts rawIndex [] ⟨[], [rawIndex]⟩ where
  value := rfl
  cut := by
    intro offset none
    obtain rfl := Nat.le_zero.mp none
    exact ⟨0, Nat.le_refl _, rfl, rfl, rfl⟩
  low := by
    intro raw listed
    exact (List.mem_singleton.mp listed).ge
  sorted := List.pairwise_singleton _ _

/-- One more unit, raw or normalised, in front. -/
theorem Cuts.cons {rawIndex : Nat} (front : JsString) {text : JsString} {char : CodeUnit}
    {normalized : NormalizedContent} (cuts : Cuts (rawIndex + front.length) text normalized)
    (one : ∀ count, lfNormalize (front ++ text.take count) = char :: lfNormalize (text.take count)) :
    Cuts rawIndex (front ++ text) (normalized.cons char rawIndex) where
  value := by
    have whole := one text.length
    rw [List.take_length] at whole
    rw [whole, NormalizedContent.cons, cuts.value]
  cut := by
    intro offset within
    have whole := one text.length
    rw [List.take_length] at whole
    rw [whole] at within ⊢
    cases offset with
    | zero => exact ⟨0, Nat.zero_le _, rfl, rfl, whole⟩
    | succ offset =>
        obtain ⟨count, bounded, listed, before, after⟩ :=
          cuts.cut offset (Nat.le_of_succ_le_succ within)
        refine ⟨front.length + count, by rw [List.length_append]; omega, ?_, ?_, ?_⟩
        · rw [NormalizedContent.cons, List.getElem?_cons_succ, listed, Nat.add_assoc]
        · rw [List.take_length_add_append, one, before, List.take_succ_cons]
        · rw [List.drop_length_add_append, after, List.drop_succ_cons]
  low := by
    intro raw listed
    rcases List.mem_cons.mp listed with rfl | later
    · exact Nat.le_refl _
    · exact Nat.le_trans (Nat.le_add_right _ _) (cuts.low raw later)
  sorted := List.pairwise_cons.mpr ⟨fun raw later =>
    Nat.le_trans (Nat.le_add_right _ _) (cuts.low raw later), cuts.sorted⟩

theorem cuts_normalizeLoop (rawIndex : Nat) (text : JsString) :
    Cuts rawIndex text (normalizeLoop rawIndex text) := by
  induction rawIndex, text using normalizeLoop.induct with
  | case1 rawIndex => exact cuts_nil rawIndex
  | case2 rawIndex char ih =>
      rw [normalizeLoop]
      refine Cuts.cons [char] ih fun count => ?_
      rw [List.take_nil, List.append_nil]
      by_cases own : char = carriageReturn
      · rw [if_pos own, own]
        rfl
      · rw [if_neg own, lfNormalize_cons own]
  | case3 rawIndex rest ih =>
      rw [normalizeLoop, if_pos rfl, if_pos rfl]
      exact ih.cons [carriageReturn, lineFeed] fun count => lfNormalize_crlf _
  | case4 rawIndex next rest other ih =>
      rw [normalizeLoop, if_pos rfl, if_neg other]
      refine ih.cons [carriageReturn] fun count => lfNormalize_cr ?_
      cases count with
      | zero => nofun
      | succ count => exact fun head => other (Option.some.inj head)
  | case5 rawIndex char next rest own ih =>
      rw [normalizeLoop, if_neg own]
      exact ih.cons [char] fun count => lfNormalize_cons own _

/-- **The table of raw offsets.** It leads from each offset of the normalised text to an offset
that cuts the raw text into the same two parts. -/
theorem rawOffsets_cut {content : JsString} {offset : Nat}
    (within : offset ≤ (lfNormalize content).length) :
    ∃ raw ≤ content.length, (normalizeWithRawOffsets content).rawOffsets[offset]? = some raw ∧
      lfNormalize (content.take raw) = (lfNormalize content).take offset ∧
      lfNormalize (content.drop raw) = (lfNormalize content).drop offset := by
  obtain ⟨raw, bounded, listed, parts⟩ := (cuts_normalizeLoop 0 content).cut offset within
  rw [Nat.zero_add] at listed
  exact ⟨raw, bounded, listed, parts⟩

/-- The offsets are in order. -/
theorem rawOffsets_le {content : JsString} {first second r s : Nat} (order : first ≤ second)
    (start : (normalizeWithRawOffsets content).rawOffsets[first]? = some r)
    (stop : (normalizeWithRawOffsets content).rawOffsets[second]? = some s) : r ≤ s := by
  obtain ⟨firstWithin, rfl⟩ := List.getElem?_eq_some_iff.mp start
  obtain ⟨secondWithin, rfl⟩ := List.getElem?_eq_some_iff.mp stop
  rcases Nat.lt_or_eq_of_le order with less | rfl
  · exact List.pairwise_iff_getElem.mp (cuts_normalizeLoop 0 content).sorted _ _ _ _ less
  · exact Nat.le_refl _

end RawOffsets

section Matches

variable {request : AnchoredSpliceRequest} {content : JsString}

/-- The code finds the matches. -/
theorem matches_eq (request : AnchoredSpliceRequest) (content : JsString) :
    (if content = [] ∧ request.needle = [] then [0]
      else findAllSubstringOffsets (normalizeWithRawOffsets content).value request.needle) =
      request.matches content := by
  have value : (normalizeWithRawOffsets content).value = lfNormalize content :=
    (cuts_normalizeLoop 0 content).value
  rw [AnchoredSpliceRequest.matches, findAllSubstringOffsets, value]
  by_cases empty : request.needle = []
  · rw [if_pos empty, empty, if_pos List.length_nil]
    by_cases none : content = []
    · rw [if_pos ⟨none, rfl⟩, if_pos none]
    · rw [if_neg fun both => none both.1, if_neg none]
  · rw [if_neg fun both => empty both.2, if_neg empty,
      if_neg fun none => empty (List.length_eq_zero_iff.mp none), List.searchAll_eq empty]

theorem occursAt_of_mem_matches {offset : Nat} (listed : offset ∈ request.matches content) :
    (lfNormalize content).OccursAt request.needle offset ∧
      offset + request.needle.length ≤ (lfNormalize content).length := by
  rw [AnchoredSpliceRequest.matches] at listed
  split_ifs at listed with empty none
  · rw [List.mem_singleton.mp listed, empty, none]
    exact ⟨List.nil_prefix, Nat.le_refl _⟩
  · cases listed
  · have occurs := (List.mem_occurrences empty).mp listed
    exact ⟨occurs, occurs.length_le empty⟩

/-- What is picked is a match. -/
theorem PicksOffset.mem {matched : List Nat} {occurrence : Option (Option ℚ)} {offset : Nat}
    (picks : PicksOffset matched occurrence offset) : offset ∈ matched := by
  rcases picks with rfl | ⟨number, _, _, _, found⟩
  · exact List.mem_singleton_self _
  · exact List.mem_of_getElem? found

theorem picks_iff {matched : List Nat} {occurrence : Option (Option ℚ)} :
    Picks matched occurrence ↔ ∃ offset, PicksOffset matched occurrence offset := by
  constructor
  · rintro (single | ⟨number, same, positive, within⟩)
    · obtain ⟨only, shape⟩ := List.length_eq_one_iff.mp single
      exact ⟨only, .inl shape⟩
    · by_cases single : matched.length = 1
      · obtain ⟨only, shape⟩ := List.length_eq_one_iff.mp single
        exact ⟨only, .inl shape⟩
      · exact ⟨_, .inr ⟨number, same, single, positive,
          List.getElem?_eq_getElem (show number - 1 < matched.length by omega)⟩⟩
  · rintro ⟨offset, rfl | ⟨number, same, _, positive, found⟩⟩
    · exact .inl rfl
    · obtain ⟨within, _⟩ := List.getElem?_eq_some_iff.mp found
      exact .inr ⟨number, same, positive, by omega⟩

/-- An element is found by the numbers that count it. -/
theorem elementAt_sub_one {items : List Nat} {occurrence : Option ℚ} {item : Nat} :
    elementAt items (occurrence.map (· - 1)) = some item ↔
      ∃ number : Nat, occurrence = some (number : ℚ) ∧ 1 ≤ number ∧
        items[number - 1]? = some item := by
  unfold elementAt
  constructor
  · intro found
    obtain ⟨index, shape, taken⟩ := Option.bind_eq_some_iff.mp found
    obtain ⟨value, rfl, rfl⟩ := Option.map_eq_some_iff.mp shape
    split_ifs at taken with whole
    have same : value = ((value - 1).num.toNat + 1 : Nat) := by
      have integer : value - 1 = ((value - 1).num : ℚ) :=
        ((value - 1).den_eq_one_iff.mp whole.1).symm
      have natural : ((value - 1).num : ℤ) = ((value - 1).num.toNat : ℤ) :=
        (Int.toNat_of_nonneg whole.2).symm
      rw [natural, Int.cast_natCast] at integer
      rw [Nat.cast_add, Nat.cast_one, ← integer, sub_add_cancel]
    exact ⟨_, congrArg some same, Nat.le_add_left _ _, by rwa [Nat.add_sub_cancel]⟩
  · rintro ⟨number, rfl, positive, found⟩
    have index : (number : ℚ) - 1 = ((number - 1 : Nat) : ℚ) := by
      rw [Nat.cast_sub positive, Nat.cast_one]
    rw [Option.map_some, Option.bind_some, index, Rat.den_natCast, Rat.num_natCast,
      if_pos ⟨rfl, Int.natCast_nonneg _⟩, Int.toNat_natCast, found]

theorem matchOffset_some (first second : Nat) (rest : List Nat) (occurrence : Option ℚ) :
    matchOffset (first :: second :: rest) (some occurrence) =
      match elementAt (first :: second :: rest) (occurrence.map (· - 1)) with
      | none => .error .notFound
      | some picked => .ok picked := rfl

/-- The code picks the match. -/
theorem matchOffset_eq_ok_iff {matched : List Nat} {occurrence : Option (Option ℚ)}
    {offset : Nat} :
    matchOffset matched occurrence = .ok offset ↔ PicksOffset matched occurrence offset := by
  match matched with
  | [] => simp [matchOffset, PicksOffset]
  | [only] => simp [matchOffset, PicksOffset]
  | first :: second :: rest =>
      have many : (first :: second :: rest).length ≠ 1 := by simp
      cases occurrence with
      | none => simp [matchOffset, PicksOffset]
      | some occurrence =>
          have picked := @elementAt_sub_one (first :: second :: rest) occurrence offset
          simp only [PicksOffset, many, Option.some.injEq, ne_eq, not_false_eq_true, true_and]
          rw [← picked, matchOffset_some]
          cases elementAt (first :: second :: rest) (occurrence.map (· - 1)) <;> simp

theorem matchOffset_eq_error {matched : List Nat} {occurrence : Option (Option ℚ)}
    (other : ¬ Picks matched occurrence) :
    matchOffset matched occurrence = .error .notFound ∨
      matchOffset matched occurrence = .error (.ambiguous matched.length) := by
  have stopped : ∀ offset, matchOffset matched occurrence ≠ .ok offset := fun offset found =>
    other (picks_iff.mpr ⟨offset, matchOffset_eq_ok_iff.mp found⟩)
  match matched with
  | [] => exact .inl rfl
  | [only] => exact absurd rfl (stopped only)
  | first :: second :: rest =>
      cases occurrence with
      | none => exact .inr rfl
      | some occurrence =>
          left
          rw [matchOffset_some] at stopped ⊢
          cases found : elementAt (first :: second :: rest) (occurrence.map (· - 1)) with
          | none => rfl
          | some offset =>
              rw [found] at stopped
              exact absurd rfl (stopped offset)

end Matches

/-- A splice of a match replaces a range of the raw note. -/
structure AnchoredSplice (content : JsString) (request : AnchoredSpliceRequest)
    (offset start stop : Nat) : Prop where
  picks : PicksOffset (request.matches content) request.occurrence offset
  startListed :
    (normalizeWithRawOffsets content).rawOffsets[offset + request.normalBefore.length]? = some start
  stopListed :
    (normalizeWithRawOffsets content).rawOffsets[offset + request.normalBefore.length +
      request.normalOld.length]? = some stop
  ordered : start ≤ stop
  bounded : stop ≤ content.length
  front : lfNormalize (content.take start) =
    (lfNormalize content).take offset ++ request.normalBefore
  replaced : lfNormalize ((content.take stop).drop start) = request.normalOld
  back : lfNormalize (content.drop stop) =
    (lfNormalize content).drop (offset + request.normalBefore.length + request.normalOld.length)

/-- The note with a range replaced. -/
def spliced (content newText : JsString) (start stop : Nat) : JsString :=
  content.take start ++ newText ++ content.drop stop

section Splice

variable {content : JsString} {request : AnchoredSpliceRequest}

theorem not_fuses_take_drop {raw offset : Nat}
    (front : lfNormalize (content.take raw) = (lfNormalize content).take offset)
    (back : lfNormalize (content.drop raw) = (lfNormalize content).drop offset) :
    ¬ Fuses (content.take raw) (content.drop raw) := by
  rw [← lfNormalize_append_iff, List.take_append_drop, front, back, List.take_append_drop]

/-- A match is at a range of the raw note. -/
theorem exists_anchoredSplice {offset : Nat}
    (picks : PicksOffset (request.matches content) request.occurrence offset) :
    ∃ start stop, AnchoredSplice content request offset start stop := by
  obtain ⟨occurs, within⟩ := occursAt_of_mem_matches picks.mem
  obtain ⟨after, shape⟩ := occurs
  have length : request.needle.length =
      request.normalBefore.length + request.normalOld.length + request.normalAfter.length := by
    rw [AnchoredSpliceRequest.needle, List.length_append, List.length_append]
  rw [AnchoredSpliceRequest.needle, List.append_assoc, List.append_assoc] at shape
  obtain ⟨start, startBounded, startListed, startFront, startBack⟩ := @rawOffsets_cut content
    (offset + request.normalBefore.length) (by omega)
  obtain ⟨stop, stopBounded, stopListed, stopFront, stopBack⟩ := @rawOffsets_cut content
    (offset + request.normalBefore.length + request.normalOld.length) (by omega)
  have ordered := rawOffsets_le (Nat.le_add_right _ _) startListed stopListed
  refine ⟨start, stop, picks, startListed, stopListed, ordered, stopBounded, ?_, ?_, stopBack⟩
  · rw [startFront, List.take_add, ← shape, List.take_left]
  · have apart := not_fuses_take_drop startFront startBack
    have parts : content.take stop =
        content.take start ++ (content.take stop).drop start := by
      have split := (List.take_append_drop start (content.take stop)).symm
      rwa [List.take_take, Nat.min_eq_left ordered] at split
    have kept : ¬ Fuses (content.take start) ((content.take stop).drop start) := by
      rintro ⟨last, head⟩
      refine apart ⟨last, ?_⟩
      rw [List.drop_take, List.head?_take] at head
      split_ifs at head
      exact head
    have whole : lfNormalize (content.take start) ++
          lfNormalize ((content.take stop).drop start) =
        (lfNormalize content).take (offset + request.normalBefore.length) ++
          ((lfNormalize content).drop (offset + request.normalBefore.length)).take
            request.normalOld.length := by
      rw [← lfNormalize_append kept, ← parts, stopFront, List.take_add]
    rw [startFront, List.append_cancel_left_eq] at whole
    rw [whole, ← List.drop_drop, ← shape, List.drop_left, List.take_left]

theorem AnchoredSplice.unique {offset start stop otherOffset otherStart otherStop : Nat}
    (splice : AnchoredSplice content request offset start stop)
    (other : AnchoredSplice content request otherOffset otherStart otherStop) :
    otherOffset = offset ∧ otherStart = start ∧ otherStop = stop := by
  have same : otherOffset = offset := Except.ok.inj
    ((matchOffset_eq_ok_iff.mpr other.picks).symm.trans (matchOffset_eq_ok_iff.mpr splice.picks))
  subst same
  exact ⟨rfl, Option.some.inj (other.startListed.symm.trans splice.startListed),
    Option.some.inj (other.stopListed.symm.trans splice.stopListed)⟩

/-- The code carries out the splice. -/
theorem AnchoredSplice.apply {offset start stop : Nat} (small : ¬ request.TooLarge)
    (splice : AnchoredSplice content request offset start stop) :
    applyAnchoredSplice content request =
      withinDocumentLimit (spliced content request.normalNew start stop) := by
  rw [applyAnchoredSplice, if_neg small]
  dsimp only
  rw [matches_eq, matchOffset_eq_ok_iff.mpr splice.picks]
  dsimp only
  rw [splice.startListed, splice.stopListed]
  rfl

theorem applyAnchoredSplice_eq_of_not_picks (small : ¬ request.TooLarge)
    (none : ¬ Picks (request.matches content) request.occurrence) :
    applyAnchoredSplice content request = .notFound ∨
      applyAnchoredSplice content request = .ambiguous (request.matches content).length := by
  rw [applyAnchoredSplice, if_neg small]
  dsimp only
  rw [matches_eq]
  rcases matchOffset_eq_error none with same | same
  · rw [same]
    exact .inl rfl
  · rw [same]
    exact .inr rfl

theorem withinDocumentLimit_eq_ok_iff {next left : JsString} :
    withinDocumentLimit next = .ok left ↔
      left = next ∧ utf8ByteLength next ≤ documentBytesLimit := by
  rw [withinDocumentLimit]
  split_ifs with large
  · simp [Nat.not_le.mpr large]
  · simp [Nat.not_lt.mp large, eq_comm]

/-- **Anchored splices.** A splice within its limit succeeds when it has one match or picks one,
and the document stays within its limit. It then replaces a range of the raw note that is the old
text up to its line endings, behind a front that is the note before the match and the first
anchor. -/
theorem applyAnchoredSplice_spec (content : JsString) (request : AnchoredSpliceRequest)
    (small : ¬ request.TooLarge) :
    ((∃ next, applyAnchoredSplice content request = .ok next) ↔
      Picks (request.matches content) request.occurrence ∧
        ∀ offset start stop, AnchoredSplice content request offset start stop →
          utf8ByteLength (spliced content request.normalNew start stop) ≤ documentBytesLimit) ∧
      (Picks (request.matches content) request.occurrence ↔
        ∃ offset start stop, AnchoredSplice content request offset start stop) ∧
      ∀ next, applyAnchoredSplice content request = .ok next →
        ∃ offset start stop, AnchoredSplice content request offset start stop ∧
          next = spliced content request.normalNew start stop := by
  have found : Picks (request.matches content) request.occurrence ↔
      ∃ offset start stop, AnchoredSplice content request offset start stop := by
    rw [picks_iff]
    exact ⟨fun ⟨offset, picks⟩ => ⟨offset, exists_anchoredSplice picks⟩,
      fun ⟨offset, _, _, splice⟩ => ⟨offset, splice.picks⟩⟩
  have succeeded : ∀ next, applyAnchoredSplice content request = .ok next →
      Picks (request.matches content) request.occurrence := by
    intro next same
    by_contra none
    rcases applyAnchoredSplice_eq_of_not_picks small none with other | other <;>
      · rw [other] at same
        cases same
  refine ⟨⟨?_, ?_⟩, found, ?_⟩
  · rintro ⟨next, same⟩
    refine ⟨succeeded next same, fun offset start stop splice => ?_⟩
    rw [splice.apply small, withinDocumentLimit_eq_ok_iff] at same
    exact same.2
  · rintro ⟨picks, within⟩
    obtain ⟨offset, start, stop, splice⟩ := found.mp picks
    refine ⟨spliced content request.normalNew start stop, ?_⟩
    rw [splice.apply small]
    exact withinDocumentLimit_eq_ok_iff.mpr ⟨rfl, within offset start stop splice⟩
  · intro next same
    obtain ⟨offset, start, stop, splice⟩ := found.mp (succeeded next same)
    rw [splice.apply small, withinDocumentLimit_eq_ok_iff] at same
    exact ⟨offset, start, stop, splice, same.1⟩

end Splice

/-- Replace the second line `b`, whose line endings are not those of the request. -/
def mixedSplice : AnchoredSpliceRequest where
  oldText := units "\nb"
  newText := units "\r\nc"
  before := none
  after := some (units "\n")
  occurrence := some (some 2)

theorem applyAnchoredSplice_spec_mixed :
    applyAnchoredSplice (units "a\nb\r\r\nb\rd") mixedSplice = .ok (units "a\nb\r\nc\rd") ∧
      ∃ offset start stop,
        AnchoredSplice (units "a\nb\r\r\nb\rd") mixedSplice offset start stop ∧
          units "a\nb\r\nc\rd" =
            spliced (units "a\nb\r\r\nb\rd") mixedSplice.normalNew start stop := by
  have applied : applyAnchoredSplice (units "a\nb\r\r\nb\rd") mixedSplice =
      .ok (units "a\nb\r\nc\rd") := by decide +kernel
  exact ⟨applied, (applyAnchoredSplice_spec _ mixedSplice (by decide)).2.2 _ applied⟩

end Kb1Daemon
