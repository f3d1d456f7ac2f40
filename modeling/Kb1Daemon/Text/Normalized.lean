import Kb1Daemon.Text.Anchored
import Kb1Daemon.Text.Frontmatter

/-! # Edits of normalised notes

An edit of a note and the same edit of the normalised note leave the same text up to line endings,
unless the edit joins a carriage return and a line feed (`edits_normalize_iff`). A carriage return
of the note that ends in front of an added line feed makes one line ending with it
(`edits_make_one_line_ending`).
-/

namespace Kb1Daemon

open JsString

section Bytes

theorem utf8ByteLength_line {line : RawLine} {rest : JsString} (before : LineBefore line rest) :
    utf8ByteLength (line.raw ++ rest) =
      utf8ByteLength line.text + (line.ending.length + utf8ByteLength rest) := by
  have ends := before.ends
  rw [RawLine.raw, List.append_assoc]
  generalize line.ending = ending at ends
  have marks : ∀ rest : JsString, ending.getLast?.any Json.isHighSurrogate = true →
      rest.head?.any Json.isLowSurrogate = false := by
    intro rest high
    cases ends <;> exact absurd high (by decide)
  have after : (ending ++ rest).head?.any Json.isLowSurrogate = false := by
    cases ends <;> rfl
  have own : Utf8.byteLength ending = ending.length := by
    cases ends <;> rfl
  rw [utf8ByteLength, Utf8.byteLength_append fun _ => after, Utf8.byteLength_append (marks rest), own]
  rfl

/-- A normalised text has no more bytes. -/
theorem utf8ByteLength_lfNormalize_le (text : JsString) :
    utf8ByteLength (lfNormalize text) ≤ utf8ByteLength text := by
  induction text using rawLines_induction with
  | nil => exact Nat.le_refl _
  | line line rest before ih =>
      rw [lfNormalize_line before, utf8ByteLength_line before, utf8ByteLength_line before.normal]
      have shorter : line.normal.ending.length ≤ line.ending.length := by
        rw [RawLine.normal]
        split_ifs with none
        · exact Nat.zero_le _
        · exact List.length_pos_iff.mpr none
      exact Nat.add_le_add_left (Nat.add_le_add shorter ih) _

end Bytes

section Splice

variable {content : JsString} {request : AnchoredSpliceRequest} {offset start stop : Nat}

theorem matches_lfNormalize (request : AnchoredSpliceRequest) (content : JsString) :
    request.matches (lfNormalize content) = request.matches content := by
  rw [AnchoredSpliceRequest.matches, AnchoredSpliceRequest.matches, lfNormalize_lfNormalize]
  simp only [lfNormalize_eq_nil_iff]

/-- The splice of the normalised note. -/
theorem AnchoredSplice.normalized (splice : AnchoredSplice content request offset start stop) :
    ∃ otherStart otherStop,
      AnchoredSplice (lfNormalize content) request offset otherStart otherStop ∧
        spliced (lfNormalize content) request.normalNew otherStart otherStop =
          lfNormalize (content.take start) ++
            (request.normalNew ++ lfNormalize (content.drop stop)) := by
  have picks := splice.picks
  rw [← matches_lfNormalize] at picks
  obtain ⟨otherStart, otherStop, other⟩ := exists_anchoredSplice picks
  have free := carriageReturn_not_mem_lfNormalize content
  have front := other.front
  have back := other.back
  rw [lfNormalize_lfNormalize, ← splice.front,
    lfNormalize_of_not_mem fun inside => free (List.mem_of_mem_take inside)] at front
  rw [lfNormalize_lfNormalize, ← splice.back,
    lfNormalize_of_not_mem fun inside => free (List.mem_of_mem_drop inside)] at back
  refine ⟨otherStart, otherStop, other, ?_⟩
  rw [spliced, front, back, List.append_assoc]

theorem AnchoredSplice.normalize_iff (splice : AnchoredSplice content request offset start stop)
    {next : JsString} (applied : applyAnchoredSplice content request = .ok next) :
    applyAnchoredSplice (lfNormalize content) request = .ok (lfNormalize next) ↔
      ¬ Fuses (content.take start) (request.normalNew ++ content.drop stop) := by
  have small : ¬ request.TooLarge := by
    intro large
    rw [applyAnchoredSplice, if_pos large] at applied
    cases applied
  obtain ⟨otherStart, otherStop, other, shape⟩ := splice.normalized
  rw [splice.apply small, withinDocumentLimit_eq_ok_iff] at applied
  obtain ⟨rfl, within⟩ := applied
  have new : lfNormalize (request.normalNew ++ content.drop stop) =
      request.normalNew ++ lfNormalize (content.drop stop) := by
    have free : carriageReturn ∉ request.normalNew := carriageReturn_not_mem_lfNormalize _
    rw [lfNormalize_append (not_fuses_of_not_mem free _), lfNormalize_of_not_mem free]
  rw [other.apply small, withinDocumentLimit_eq_ok_iff, shape, ← new, ← lfNormalize_append_iff]
  have whole : content.take start ++ (request.normalNew ++ content.drop stop) =
      spliced content request.normalNew start stop := by
    rw [spliced, List.append_assoc]
  rw [whole]
  refine ⟨And.left, fun same => ⟨same, ?_⟩⟩
  rw [← same]
  exact (utf8ByteLength_lfNormalize_le _).trans within

end Splice

section Additions

variable {content addition : JsString}

theorem appendContent_normalize_iff :
    lfNormalize (appendContent content addition) = appendContent (lfNormalize content) addition ↔
      ¬ Fuses content (lfNormalize addition) := by
  rw [appendContent, appendContent, ← lfNormalize_append_iff, lfNormalize_lfNormalize]

theorem Frontmatter.normalized {above below : List RawLine} {closing : RawLine}
    (frontmatter : Frontmatter content above closing below) :
    Frontmatter (lfNormalize content) (above.map RawLine.normal) closing.normal
      (below.map RawLine.normal) := by
  obtain ⟨lines, ⟨ending, body, rfl, unclosed⟩, closed⟩ := frontmatter
  refine ⟨?_, ⟨_, body.map RawLine.normal, rfl, ?_⟩, closed⟩
  · rw [rawLines_lfNormalize, lines, List.map_append]
    rfl
  · intro line listed
    obtain ⟨raw, inside, rfl⟩ := List.mem_map.mp listed
    exact unclosed raw inside

theorem frontmatter_of_lfNormalize
    (found : ∃ above closing below, Frontmatter (lfNormalize content) above closing below) :
    ∃ above closing below, Frontmatter content above closing below := by
  obtain ⟨_, _, _, lines, ⟨ending, _, rfl, unclosed⟩, closed⟩ := found
  rw [rawLines_lfNormalize] at lines
  obtain ⟨front, back, whole, frontShape, backShape⟩ := List.map_eq_append_iff.mp lines
  obtain ⟨closing, below, rfl, rfl, _⟩ := List.map_eq_cons_iff.mp backShape
  obtain ⟨first, body, rfl, opening, rfl⟩ := List.map_eq_cons_iff.mp frontShape
  refine ⟨_, closing, below, whole, ⟨first.ending, body, ?_, ?_⟩, closed⟩
  · rw [← (RawLine.mk.inj opening).1]
  · exact fun line listed => unclosed line.normal (List.mem_map_of_mem listed)

theorem Frontmatter.not_fuses {above below : List RawLine} {closing : RawLine}
    (frontmatter : Frontmatter content above closing below) :
    ¬ Fuses (rawText (above ++ [closing])) (rawText below) := by
  have shape : rawLines content = (above ++ [closing]) ++ below := by
    rw [frontmatter.lines, List.append_assoc, List.singleton_append]
  rw [← lfNormalize_append_iff, ← frontmatter.text.1, lfNormalize_rawText shape,
    ← rawText_rawLines (lfNormalize content), rawLines_lfNormalize, shape, List.map_append,
    rawText_append, ← rawText_rawLines (lfNormalize (rawText below)), rawLines_lfNormalize,
    frontmatter.text.2]

theorem RawLine.normal_ending_eq_nil_iff (line : RawLine) :
    line.normal.ending = [] ↔ line.ending = [] := by
  rw [RawLine.normal]
  split_ifs with none <;> simp [none]

/-- What is inserted meets a carriage return above it as the addition does. -/
theorem Frontmatter.fuses_iff {above below : List RawLine} {closing : RawLine}
    (frontmatter : Frontmatter content above closing below) (added : JsString) :
    Fuses (rawText (above ++ [closing]))
        (prependSeparator (rawText (above ++ [closing])) added ++ added ++ rawText below) ↔
      Fuses (rawText (above ++ [closing])) added := by
  rw [frontmatter.separator_eq]
  by_cases empty : added = []
  · rw [empty, if_neg fun both => both.1 rfl]
    exact iff_of_false frontmatter.not_fuses (not_fuses_of_head nofun)
  · by_cases ended : closing.ending = []
    · have apart : ∀ rest, ¬ Fuses (rawText (above ++ [closing])) rest := by
        rintro rest ⟨last, _⟩
        refine frontmatter.endsWithLineEnding_iff.mp ?_ ended
        rw [endsWithLineEnding, Bool.or_eq_true, decide_eq_true_eq, decide_eq_true_eq]
        exact .inr last
      exact iff_of_false (apart _) (apart _)
    · rw [if_neg fun both => ended both.2, List.nil_append, Fuses, Fuses,
        List.head?_append_of_ne_nil _ empty]

theorem prependContent_normalize_iff :
    lfNormalize (prependContent content addition) = prependContent (lfNormalize content) addition ↔
      ¬ Fuses (content.take ((frontmatterInsertionPoint content).getD 0))
        (lfNormalize addition) := by
  have free := carriageReturn_not_mem_lfNormalize addition
  by_cases found : ∃ above closing below, Frontmatter content above closing below
  · obtain ⟨above, closing, below, frontmatter⟩ := found
    have other := frontmatter.normalized.prependContent_eq addition
    have front : rawText (above.map RawLine.normal ++ [closing.normal]) =
        lfNormalize (rawText (above ++ [closing])) := by
      have shape : rawLines content = (above ++ [closing]) ++ below := by
        rw [frontmatter.lines, List.append_assoc, List.singleton_append]
      rw [lfNormalize_rawText shape, List.map_append, List.map_singleton]
    have back : rawText (below.map RawLine.normal) = lfNormalize (rawText below) := by
      rw [← frontmatter.text.2, ← rawLines_lfNormalize, rawText_rawLines, frontmatter.text.2]
    have separator : prependSeparator (lfNormalize (rawText (above ++ [closing])))
          (lfNormalize addition) =
        prependSeparator (rawText (above ++ [closing])) (lfNormalize addition) := by
      rw [← front, frontmatter.normalized.separator_eq, frontmatter.separator_eq]
      simp only [RawLine.normal_ending_eq_nil_iff]
    have plain : carriageReturn ∉ prependSeparator (rawText (above ++ [closing]))
        (lfNormalize addition) ++ lfNormalize addition := by
      rw [List.mem_append, not_or]
      refine ⟨?_, free⟩
      rw [prependSeparator]
      split_ifs <;> decide
    rw [front, back, separator] at other
    rw [other, frontmatter.prependContent_eq, frontmatter.cut.1, ← frontmatter.fuses_iff,
      ← lfNormalize_append_iff, lfNormalize_append (not_fuses_of_not_mem plain _),
      lfNormalize_of_not_mem plain, List.append_assoc (rawText _),
      List.append_assoc (lfNormalize (rawText _))]
  · have own := prependContent_eq_of_none found addition
    have other := (prependContent_eq_of_none
      (fun normal => found (frontmatter_of_lfNormalize normal)) addition).2
    rw [own.1, own.2, other, lfNormalize_append (not_fuses_of_not_mem free _),
      lfNormalize_of_not_mem free]
    exact iff_of_true rfl (not_fuses_nil_left _)

end Additions

/-- **Edits and line endings.** An edit of a note and the same edit of the normalised note leave
the same text up to line endings, unless a carriage return that the edit keeps is in front of a
line feed that it moves there. -/
theorem edits_normalize_iff (content : JsString) (request : AnchoredSpliceRequest)
    (addition : JsString) :
    (∀ next, applyAnchoredSplice content request = .ok next →
        (applyAnchoredSplice (lfNormalize content) request = .ok (lfNormalize next) ↔
          ∀ offset start stop, AnchoredSplice content request offset start stop →
            ¬ Fuses (content.take start) (request.normalNew ++ content.drop stop))) ∧
      (lfNormalize (appendContent content addition) =
          appendContent (lfNormalize content) addition ↔
        ¬ Fuses content (lfNormalize addition)) ∧
      (lfNormalize (prependContent content addition) =
          prependContent (lfNormalize content) addition ↔
        ¬ Fuses (content.take ((frontmatterInsertionPoint content).getD 0))
          (lfNormalize addition)) := by
  refine ⟨?_, appendContent_normalize_iff, prependContent_normalize_iff⟩
  intro next applied
  have small : ¬ request.TooLarge := by
    intro large
    rw [applyAnchoredSplice, if_pos large] at applied
    cases applied
  obtain ⟨offset, start, stop, splice, _⟩ :=
    (applyAnchoredSplice_spec content request small).2.2 next applied
  rw [splice.normalize_iff applied]
  refine ⟨fun apart otherOffset otherStart otherStop other => ?_, fun all => all _ _ _ splice⟩
  obtain ⟨_, rfl, rfl⟩ := splice.unique other
  exact apart

/-- Take out what is between a carriage return and a line feed. -/
def joiningSplice : AnchoredSpliceRequest where
  oldText := units "X"
  newText := []
  before := none
  after := none
  occurrence := none

/-- Two line endings of the edit of the normalised note are one line ending of the note's. -/
theorem edits_make_one_line_ending :
    (applyAnchoredSplice (units "a\rX\nb") joiningSplice = .ok (units "a\r\nb") ∧
        applyAnchoredSplice (lfNormalize (units "a\rX\nb")) joiningSplice ≠
          .ok (lfNormalize (units "a\r\nb"))) ∧
      lfNormalize (appendContent (units "a\r") (units "\nb")) ≠
        appendContent (lfNormalize (units "a\r")) (units "\nb") ∧
      lfNormalize (prependContent (units "---\r---\ra") (units "\nb")) ≠
        prependContent (lfNormalize (units "---\r---\ra")) (units "\nb") := by
  decide

end Kb1Daemon
