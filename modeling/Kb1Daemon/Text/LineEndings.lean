import Kb1Daemon.Text.Splice

/-! # Line endings

Normalisation makes one line feed of every line ending and leaves the rest. It commutes with
concatenation unless a carriage return and a line feed meet at the seam and become one line ending
(`lfNormalize_append_iff`).
-/

namespace Kb1Daemon

open JsString

section Normal

/-- The empty text is normal. -/
theorem lfNormalize_nil : lfNormalize [] = [] := rfl

/-- A pair becomes a line feed. -/
theorem lfNormalize_crlf (rest : JsString) :
    lfNormalize (carriageReturn :: lineFeed :: rest) = lineFeed :: lfNormalize rest := by
  unfold lfNormalize
  rw [replaceCrLf, if_pos ⟨rfl, rfl⟩]
  rfl

/-- Any other unit stays. -/
theorem lfNormalize_cons {unit : CodeUnit} (other : unit ≠ carriageReturn) (rest : JsString) :
    lfNormalize (unit :: rest) = unit :: lfNormalize rest := by
  have kept : replaceCr (unit :: replaceCrLf rest) = unit :: replaceCr (replaceCrLf rest) := by
    unfold replaceCr
    rw [List.map_cons, if_neg other]
  unfold lfNormalize
  cases rest with
  | nil => exact kept
  | cons second rest => rw [replaceCrLf, if_neg fun both => other both.1, kept]

theorem lfNormalize_cr {rest : JsString} (lone : rest.head? ≠ some lineFeed) :
    lfNormalize (carriageReturn :: rest) = lineFeed :: lfNormalize rest := by
  have replaced : replaceCr (carriageReturn :: replaceCrLf rest) =
      lineFeed :: replaceCr (replaceCrLf rest) := by
    unfold replaceCr
    rw [List.map_cons, if_pos rfl]
  unfold lfNormalize
  cases rest with
  | nil => exact replaced
  | cons second rest =>
      rw [replaceCrLf, if_neg fun both => lone (congrArg some both.2), replaced]

/-- A line feed stays. -/
theorem lfNormalize_cons_lineFeed (rest : JsString) :
    lfNormalize (lineFeed :: rest) = lineFeed :: lfNormalize rest :=
  lfNormalize_cons (by decide) rest

/-- Induction over a text by its line endings and other units. -/
@[elab_as_elim]
theorem lineEnding_induction {motive : JsString → Prop} (nil : motive [])
    (crlf : ∀ rest, motive rest → motive (carriageReturn :: lineFeed :: rest))
    (cr : ∀ rest, rest.head? ≠ some lineFeed → motive rest → motive (carriageReturn :: rest))
    (other : ∀ unit rest, unit ≠ carriageReturn → motive rest → motive (unit :: rest))
    (text : JsString) : motive text := by
  induction length : text.length using Nat.strongRecOn generalizing text with
  | _ count ih =>
    subst length
    cases text with
    | nil => exact nil
    | cons unit rest =>
        have shorter : motive rest := ih rest.length (Nat.lt_succ_self _) rest rfl
        by_cases own : unit = carriageReturn
        · subst own
          by_cases pair : rest.head? = some lineFeed
          · obtain ⟨after, rfl⟩ := List.head?_eq_some_iff.mp pair
            exact crlf after (ih after.length (by simp only [List.length_cons]; omega) after rfl)
          · exact cr rest pair shorter
        · exact other unit rest own shorter

end Normal

/-- A carriage return and a line feed meet where two texts are joined. -/
def Fuses (front rest : JsString) : Prop :=
  front.getLast? = some carriageReturn ∧ rest.head? = some lineFeed

instance (front rest : JsString) : Decidable (Fuses front rest) :=
  inferInstanceAs (Decidable (_ ∧ _))

theorem not_fuses_nil_left (rest : JsString) : ¬ Fuses [] rest := by
  rintro ⟨⟨⟩, _⟩

theorem not_fuses_of_head {front rest : JsString} (head : rest.head? ≠ some lineFeed) :
    ¬ Fuses front rest := fun fuses => head fuses.2

theorem fuses_cons_iff {unit : CodeUnit} {front rest : JsString} (some : front ≠ []) :
    Fuses (unit :: front) rest ↔ Fuses front rest := by
  unfold Fuses
  rw [List.getLast?_cons_of_ne_nil some]

theorem lfNormalize_append {front rest : JsString} (apart : ¬ Fuses front rest) :
    lfNormalize (front ++ rest) = lfNormalize front ++ lfNormalize rest := by
  induction front using lineEnding_induction with
  | nil => rfl
  | crlf front ih =>
      rw [List.cons_append, List.cons_append, lfNormalize_crlf, lfNormalize_crlf, List.cons_append]
      congr 1
      by_cases none : front = []
      · rw [none]
        rfl
      · rw [fuses_cons_iff (List.cons_ne_nil _ _), fuses_cons_iff none] at apart
        exact ih apart
  | cr front lone ih =>
      by_cases none : front = []
      · subst none
        have alone : rest.head? ≠ some lineFeed := fun head => apart ⟨rfl, head⟩
        rw [List.singleton_append, lfNormalize_cr alone]
        rfl
      · have alone : (front ++ rest).head? ≠ some lineFeed := by
          rwa [List.head?_append_of_ne_nil _ none]
        rw [fuses_cons_iff none] at apart
        rw [List.cons_append, lfNormalize_cr alone, lfNormalize_cr lone, ih apart,
          List.cons_append]
  | other unit front own ih =>
      rw [List.cons_append, lfNormalize_cons own, lfNormalize_cons own, List.cons_append]
      congr 1
      by_cases none : front = []
      · rw [none]
        rfl
      · rw [fuses_cons_iff none] at apart
        exact ih apart

/-- The line ending at a fused seam is one. -/
theorem lfNormalize_append_of_fuses {front rest : JsString} (fuses : Fuses front rest) :
    lfNormalize (front ++ rest) = lfNormalize front ++ (lfNormalize rest).tail := by
  obtain ⟨last, head⟩ := fuses
  obtain ⟨before, rfl⟩ := List.getLast?_eq_some_iff.mp last
  obtain ⟨after, rfl⟩ := List.head?_eq_some_iff.mp head
  have lone (rest : JsString) : ¬ Fuses before (carriageReturn :: rest) :=
    not_fuses_of_head (by simp [carriageReturn, lineFeed])
  rw [List.append_assoc, List.singleton_append, lfNormalize_append (lone _),
    lfNormalize_append (lone _), lfNormalize_crlf, lfNormalize_cons_lineFeed, List.tail_cons,
    List.append_assoc]
  rfl

/-- **Normalisation and seams.** Normalisation commutes with a concatenation exactly when no line
ending is made at the seam. -/
theorem lfNormalize_append_iff {front rest : JsString} :
    lfNormalize (front ++ rest) = lfNormalize front ++ lfNormalize rest ↔ ¬ Fuses front rest := by
  refine ⟨fun same fuses => ?_, lfNormalize_append⟩
  rw [lfNormalize_append_of_fuses fuses, List.append_cancel_left_eq] at same
  obtain ⟨after, rfl⟩ := List.head?_eq_some_iff.mp fuses.2
  rw [lfNormalize_cons_lineFeed, List.tail_cons] at same
  exact List.cons_ne_self _ _ same.symm

theorem carriageReturn_not_mem_lfNormalize (text : JsString) :
    carriageReturn ∉ lfNormalize text := by
  unfold lfNormalize replaceCr
  rw [List.mem_map]
  rintro ⟨unit, _, same⟩
  split_ifs at same with own
  · exact absurd same (by decide)
  · exact own same

/-- A text without carriage returns is normal. -/
theorem lfNormalize_of_not_mem {text : JsString} (free : carriageReturn ∉ text) :
    lfNormalize text = text := by
  induction text with
  | nil => rfl
  | cons unit rest ih =>
      rw [List.mem_cons, not_or] at free
      rw [lfNormalize_cons (Ne.symm free.1), ih free.2]

/-- A normal text stays normal. -/
theorem lfNormalize_lfNormalize (text : JsString) :
    lfNormalize (lfNormalize text) = lfNormalize text :=
  lfNormalize_of_not_mem (carriageReturn_not_mem_lfNormalize text)

theorem not_fuses_of_not_mem {front : JsString} (free : carriageReturn ∉ front) (rest : JsString) :
    ¬ Fuses front rest := fun fuses => free (List.mem_of_getLast? fuses.1)

theorem lfNormalize_eq_nil_iff {text : JsString} : lfNormalize text = [] ↔ text = [] := by
  cases text using lineEnding_induction with
  | nil => simp [lfNormalize_nil]
  | crlf rest _ => simp [lfNormalize_crlf]
  | cr rest lone _ => simp [lfNormalize_cr lone]
  | other unit rest own _ => simp [lfNormalize_cons own]

end Kb1Daemon
