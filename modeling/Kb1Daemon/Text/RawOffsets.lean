import Kb1Daemon.Text.Anchored

/-! # The table of raw offsets

The table that normalisation keeps beside the normalised text is exact: it has one offset for each
unit and one for the end, they grow, and what the raw text holds between two of them is normalised
to what the normalised text holds between their places (`normalizeWithRawOffsets_exact`).
-/

namespace Kb1Daemon

open JsString

/-- The offsets of a raw text: one for each normalised unit and one for the end, each behind the one
before. -/
structure GrowingOffsets (rawIndex : Nat) (text : JsString) (normalized : NormalizedContent) :
    Prop where
  length : normalized.rawOffsets.length = normalized.value.length + 1
  first : normalized.rawOffsets.head? = some rawIndex
  last : normalized.rawOffsets.getLast? = some (rawIndex + text.length)
  low : ∀ raw ∈ normalized.rawOffsets, rawIndex ≤ raw
  sorted : normalized.rawOffsets.Pairwise (· < ·)

theorem growingOffsets_nil (rawIndex : Nat) : GrowingOffsets rawIndex [] ⟨[], [rawIndex]⟩ where
  length := rfl
  first := rfl
  last := rfl
  low := by
    intro raw listed
    exact (List.mem_singleton.mp listed).ge
  sorted := List.pairwise_singleton _ _

/-- One more unit, that takes some raw units, in front. -/
theorem GrowingOffsets.cons {rawIndex : Nat} {front : JsString} (some : front ≠ [])
    {text : JsString} {normalized : NormalizedContent} (char : CodeUnit)
    (growing : GrowingOffsets (rawIndex + front.length) text normalized) :
    GrowingOffsets rawIndex (front ++ text) (normalized.cons char rawIndex) where
  length := by
    rw [NormalizedContent.cons, List.length_cons, List.length_cons, growing.length]
  first := rfl
  last := by
    have listed : normalized.rawOffsets ≠ [] := by
      intro none
      have first := growing.first
      rw [none] at first
      cases first
    rw [NormalizedContent.cons, List.getLast?_cons_of_ne_nil listed, growing.last,
      List.length_append, Nat.add_assoc]
  low := by
    intro raw listed
    rcases List.mem_cons.mp listed with rfl | later
    · exact Nat.le_refl _
    · exact Nat.le_trans (Nat.le_add_right _ _) (growing.low raw later)
  sorted := by
    refine List.pairwise_cons.mpr ⟨fun raw later => ?_, growing.sorted⟩
    have positive := List.length_pos_iff.mpr some
    have behind := growing.low raw later
    omega

theorem growingOffsets_normalizeLoop (rawIndex : Nat) (text : JsString) :
    GrowingOffsets rawIndex text (normalizeLoop rawIndex text) := by
  induction rawIndex, text using normalizeLoop.induct with
  | case1 rawIndex => exact growingOffsets_nil rawIndex
  | case2 rawIndex char ih =>
      rw [normalizeLoop]
      exact ih.cons (List.cons_ne_nil char []) _
  | case3 rawIndex rest ih =>
      rw [normalizeLoop, if_pos rfl, if_pos rfl]
      exact ih.cons (List.cons_ne_nil carriageReturn [lineFeed]) _
  | case4 rawIndex next rest other ih =>
      rw [normalizeLoop, if_pos rfl, if_neg other]
      exact ih.cons (List.cons_ne_nil carriageReturn []) _
  | case5 rawIndex char next rest own ih =>
      rw [normalizeLoop, if_neg own]
      exact ih.cons (List.cons_ne_nil char []) _

/-- A text whose parts at a cut are normalised apart, cut once more before the end. -/
theorem lfNormalize_slice {content : JsString} {first second start stop : Nat}
    (order : first ≤ second)
    (startFront : lfNormalize (content.take start) = (lfNormalize content).take first)
    (startBack : lfNormalize (content.drop start) = (lfNormalize content).drop first)
    (stopFront : lfNormalize (content.take stop) = (lfNormalize content).take second)
    (before : start ≤ stop) :
    lfNormalize ((content.take stop).drop start) = ((lfNormalize content).take second).drop first := by
  have apart : ¬ Fuses (content.take start) (content.drop start) := by
    rw [← lfNormalize_append_iff, startFront, startBack, List.take_append_drop,
      List.take_append_drop]
  have whole : content.take start ++ (content.take stop).drop start = content.take stop := by
    conv_rhs => rw [← List.take_append_drop start (content.take stop)]
    rw [List.take_take, Nat.min_eq_left before]
  have apartInside : ¬ Fuses (content.take start) ((content.take stop).drop start) := by
    rintro ⟨last, head⟩
    refine apart ⟨last, ?_⟩
    obtain ⟨rest, shape⟩ := List.head?_eq_some_iff.mp head
    have within : (content.take stop).drop start <+: content.drop start :=
      List.IsPrefix.drop (List.take_prefix stop content) start
    rw [shape] at within
    obtain ⟨after, same⟩ := within
    rw [← same]
    rfl
  have parts := lfNormalize_append apartInside
  rw [whole, startFront, stopFront] at parts
  have split : ((lfNormalize content).take second).take first = (lfNormalize content).take first := by
    rw [List.take_take, Nat.min_eq_left order]
  rw [← List.take_append_drop first ((lfNormalize content).take second), split] at parts
  exact (List.append_cancel_left parts).symm

/-- **The table of raw offsets is exact.** It stands beside the normalised text, has one offset for
each of its units and one for the end, grows from the start of the raw text to its end, and what is
between two of its offsets is normalised to what is between their places; behind the table both go
on to the end. -/
theorem normalizeWithRawOffsets_exact (content : JsString) :
    (normalizeWithRawOffsets content).value = lfNormalize content ∧
      (normalizeWithRawOffsets content).rawOffsets.length =
        (normalizeWithRawOffsets content).value.length + 1 ∧
      (normalizeWithRawOffsets content).rawOffsets.Pairwise (· < ·) ∧
      (normalizeWithRawOffsets content).rawOffsets.head? = some 0 ∧
      (normalizeWithRawOffsets content).rawOffsets.getLast? = some content.length ∧
      ∀ first second start, first ≤ second →
        (normalizeWithRawOffsets content).rawOffsets[first]? = some start →
        lfNormalize
            ((sliceTo content (normalizeWithRawOffsets content).rawOffsets[second]?).drop start) =
          ((normalizeWithRawOffsets content).value.take second).drop first := by
  have cuts := cuts_normalizeLoop 0 content
  have growing := growingOffsets_normalizeLoop 0 content
  have value : (normalizeWithRawOffsets content).value = lfNormalize content := cuts.value
  have length : (normalizeWithRawOffsets content).rawOffsets.length =
      (lfNormalize content).length + 1 := by
    rw [← value]
    exact growing.length
  refine ⟨cuts.value, growing.length, growing.sorted, growing.first, ?_, ?_⟩
  · rw [← Nat.zero_add content.length]
    exact growing.last
  · intro first second start order listed
    have firstWithin : first ≤ (lfNormalize content).length := by
      obtain ⟨within, _⟩ := List.getElem?_eq_some_iff.mp listed
      rw [length] at within
      exact Nat.le_of_lt_succ within
    obtain ⟨raw, _, place, front, back⟩ := rawOffsets_cut firstWithin
    obtain rfl := Option.some.inj (listed.symm.trans place)
    rw [value]
    by_cases inside : second ≤ (lfNormalize content).length
    · obtain ⟨stop, _, stopPlace, stopFront, _⟩ := rawOffsets_cut inside
      rw [stopPlace]
      exact lfNormalize_slice order front back stopFront (rawOffsets_le order place stopPlace)
    · have beyond : (normalizeWithRawOffsets content).rawOffsets[second]? = none := by
        rw [List.getElem?_eq_none_iff]
        exact length.le.trans (Nat.lt_of_not_le inside)
      rw [beyond, sliceTo, Option.elim_none, back,
        List.take_of_length_le (Nat.le_of_lt (Nat.lt_of_not_le inside))]

example : normalizeWithRawOffsets (units "\r\n\ra\n\r\r\n") =
    ⟨units "\n\na\n\n\n", [0, 2, 3, 4, 5, 6, 8]⟩ := by decide

end Kb1Daemon
