import Kb1Daemon.Text.LineEndings

/-! # Lines with their endings

A text is its lines, each with the line ending behind it. Whole lines at the front of a text stay
its lines whatever follows them, as long as no line ending is made at the seam
(`rawLines_append`); normalisation changes the endings only (`rawLines_lfNormalize`).
-/

namespace Kb1Daemon

open JsString

/-- A line and the line ending behind it. -/
structure RawLine where
  text : JsString
  ending : JsString
  deriving DecidableEq, Repr

def RawLine.raw (line : RawLine) : JsString := line.text ++ line.ending

def rawText (lines : List RawLine) : JsString := lines.flatMap RawLine.raw

/-- One more unit at the front of the first line. -/
def extendLines (unit : CodeUnit) : List RawLine → List RawLine
  | [] => [⟨[unit], []⟩]
  | line :: lines => ⟨unit :: line.text, line.ending⟩ :: lines

/-- The lines of a text. -/
def rawLines : JsString → List RawLine
  | [] => []
  | [unit] =>
      if unit = lineFeed ∨ unit = carriageReturn then [⟨[], [unit]⟩] else [⟨[unit], []⟩]
  | unit :: next :: rest =>
      if unit = lineFeed then ⟨[], [lineFeed]⟩ :: rawLines (next :: rest)
      else if unit = carriageReturn then
        if next = lineFeed then ⟨[], [carriageReturn, lineFeed]⟩ :: rawLines rest
        else ⟨[], [carriageReturn]⟩ :: rawLines (next :: rest)
      else extendLines unit (rawLines (next :: rest))

/-- An ending of a line, before the rest of a text. -/
inductive EndsLine : (ending rest : JsString) → Prop
  | lineFeed (rest : JsString) : EndsLine [JsString.lineFeed] rest
  | pair (rest : JsString) : EndsLine [carriageReturn, JsString.lineFeed] rest
  | carriageReturn {rest : JsString} (lone : rest.head? ≠ some JsString.lineFeed) :
      EndsLine [JsString.carriageReturn] rest
  | none : EndsLine [] []

/-- No unit of the text belongs to a line ending. -/
def Unbroken (text : JsString) : Prop := lineFeed ∉ text ∧ carriageReturn ∉ text

/-- A line, and its ending before the rest of a text. -/
structure LineBefore (line : RawLine) (rest : JsString) : Prop where
  unbroken : Unbroken line.text
  ends : EndsLine line.ending rest
  nonempty : line.raw ≠ []

section Lines

variable {line : RawLine} {rest text : JsString}

theorem rawLines_lineFeed (rest : JsString) :
    rawLines (lineFeed :: rest) = ⟨[], [lineFeed]⟩ :: rawLines rest := by
  cases rest with
  | nil => rfl
  | cons next rest => rw [rawLines, if_pos rfl]

theorem rawLines_pair (rest : JsString) :
    rawLines (carriageReturn :: lineFeed :: rest) =
      ⟨[], [carriageReturn, lineFeed]⟩ :: rawLines rest := by
  rw [rawLines, if_neg (by decide), if_pos rfl, if_pos rfl]

theorem rawLines_carriageReturn (lone : rest.head? ≠ some lineFeed) :
    rawLines (carriageReturn :: rest) = ⟨[], [carriageReturn]⟩ :: rawLines rest := by
  cases rest with
  | nil => rfl
  | cons next rest =>
      rw [rawLines, if_neg (by decide), if_pos rfl, if_neg fun same => lone (congrArg some same)]

theorem rawLines_other {unit : CodeUnit} (feed : unit ≠ lineFeed) (ret : unit ≠ carriageReturn)
    (rest : JsString) : rawLines (unit :: rest) = extendLines unit (rawLines rest) := by
  cases rest with
  | nil => exact if_neg (not_or.mpr ⟨feed, ret⟩)
  | cons next rest => rw [rawLines, if_neg feed, if_neg ret]

/-- A line in front of a text is its first line. -/
theorem rawLines_line (before : LineBefore line rest) :
    rawLines (line.raw ++ rest) = line :: rawLines rest := by
  obtain ⟨text, ending⟩ := line
  obtain ⟨unbroken, ends, nonempty⟩ := before
  induction text with
  | nil =>
      cases ends with
      | lineFeed => exact rawLines_lineFeed rest
      | pair => exact rawLines_pair rest
      | carriageReturn lone => exact rawLines_carriageReturn lone
      | none => exact absurd rfl nonempty
  | cons unit text ih =>
      have feed : unit ≠ lineFeed := fun same => unbroken.1 (same ▸ List.mem_cons_self)
      have ret : unit ≠ carriageReturn := fun same => unbroken.2 (same ▸ List.mem_cons_self)
      have kept : Unbroken text := ⟨fun inside => unbroken.1 (List.mem_cons_of_mem _ inside),
        fun inside => unbroken.2 (List.mem_cons_of_mem _ inside)⟩
      change rawLines (unit :: (text ++ ending ++ rest)) = _
      rw [rawLines_other feed ret]
      by_cases empty : text ++ ending = []
      · obtain ⟨rfl, rfl⟩ := List.append_eq_nil_iff.mp empty
        cases ends
        rfl
      · have first : rawLines (text ++ ending ++ rest) = ⟨text, ending⟩ :: rawLines rest :=
          ih kept ends empty
        rw [first]
        rfl

/-- A text that is not empty begins with a line. -/
theorem exists_lineBefore (some : text ≠ []) :
    ∃ line rest, text = line.raw ++ rest ∧ LineBefore line rest := by
  induction text using lineEnding_induction with
  | nil => exact absurd rfl some
  | crlf rest _ =>
      exact ⟨⟨[], [carriageReturn, lineFeed]⟩, rest, rfl, ⟨List.not_mem_nil, List.not_mem_nil⟩,
        .pair rest, nofun⟩
  | cr rest lone _ =>
      exact ⟨⟨[], [carriageReturn]⟩, rest, rfl, ⟨List.not_mem_nil, List.not_mem_nil⟩,
        .carriageReturn lone, nofun⟩
  | other unit rest ret ih =>
      by_cases feed : unit = lineFeed
      · rw [feed]
        exact ⟨⟨[], [lineFeed]⟩, rest, rfl, ⟨List.not_mem_nil, List.not_mem_nil⟩,
          .lineFeed rest, nofun⟩
      · have alone : Unbroken [unit] :=
          ⟨fun inside => feed (List.mem_singleton.mp inside).symm,
            fun inside => ret (List.mem_singleton.mp inside).symm⟩
        by_cases empty : rest = []
        · rw [empty]
          exact ⟨⟨[unit], []⟩, [], rfl, alone, .none, nofun⟩
        · obtain ⟨line, after, rfl, unbroken, ends, _⟩ := ih empty
          refine ⟨⟨unit :: line.text, line.ending⟩, after, rfl, ⟨?_, ?_⟩, ends, nofun⟩
          · rw [List.mem_cons, not_or]
            exact ⟨Ne.symm feed, unbroken.1⟩
          · rw [List.mem_cons, not_or]
            exact ⟨Ne.symm ret, unbroken.2⟩

/-- Induction over a text by its lines. -/
@[elab_as_elim]
theorem rawLines_induction {motive : JsString → Prop} (nil : motive [])
    (line : ∀ line rest, LineBefore line rest → motive rest → motive (line.raw ++ rest))
    (text : JsString) : motive text := by
  induction length : text.length using Nat.strongRecOn generalizing text with
  | _ count ih =>
    subst length
    by_cases empty : text = []
    · rwa [empty]
    · obtain ⟨first, rest, rfl, before⟩ := exists_lineBefore empty
      refine line first rest before (ih rest.length ?_ rest rfl)
      rw [List.length_append]
      exact Nat.lt_add_of_pos_left (List.length_pos_iff.mpr before.nonempty)

/-- The first of the lines of a text is a line in front of the text of the others. -/
theorem lineBefore_of_rawLines {lines : List RawLine} (shape : rawLines text = line :: lines) :
    ∃ rest, text = line.raw ++ rest ∧ LineBefore line rest ∧ rawLines rest = lines := by
  by_cases empty : text = []
  · rw [empty] at shape
    cases shape
  · obtain ⟨first, rest, rfl, before⟩ := exists_lineBefore empty
    rw [rawLines_line before] at shape
    cases shape
    exact ⟨rest, rfl, before, rfl⟩

/-- A text is its lines. -/
theorem rawText_rawLines (text : JsString) : rawText (rawLines text) = text := by
  induction text using rawLines_induction with
  | nil => rfl
  | line line rest before ih =>
      rw [rawLines_line before, rawText, List.flatMap_cons]
      exact congrArg _ ih

theorem rawText_append (front back : List RawLine) :
    rawText (front ++ back) = rawText front ++ rawText back :=
  List.flatMap_append

theorem rawText_cons (line : RawLine) (lines : List RawLine) :
    rawText (line :: lines) = line.raw ++ rawText lines :=
  List.flatMap_cons

/-- Behind whole lines come the other lines. -/
theorem rawLines_drop {front back : List RawLine} (shape : rawLines text = front ++ back) :
    text = rawText front ++ rawText back ∧ rawLines (rawText back) = back := by
  induction front generalizing text with
  | nil =>
      have whole := rawText_rawLines text
      rw [shape] at whole
      refine ⟨whole.symm, ?_⟩
      change rawLines (rawText ([] ++ back)) = back
      rw [whole, shape]
      rfl
  | cons line front ih =>
      obtain ⟨rest, rfl, before, lines⟩ := lineBefore_of_rawLines shape
      obtain ⟨parts, kept⟩ := ih lines
      refine ⟨?_, kept⟩
      rw [rawText_cons, List.append_assoc, ← parts]

/-- A line before another has an ending. -/
theorem ending_ne_nil {front back : List RawLine} (shape : rawLines text = front ++ back)
    (more : back ≠ []) : ∀ line ∈ front, line.ending ≠ [] := by
  induction front generalizing text with
  | nil => exact nofun
  | cons line front ih =>
      obtain ⟨rest, rfl, before, lines⟩ := lineBefore_of_rawLines shape
      intro other listed
      rcases List.mem_cons.mp listed with rfl | later
      · intro none
        have ends := before.ends
        rw [none] at ends
        cases ends
        exact more (List.append_eq_nil_iff.mp lines.symm).2
      · exact ih lines other later

/-- The ending of a line stays one if no line feed follows. -/
theorem EndsLine.before {ending other : JsString} (ends : EndsLine ending rest)
    (present : ending ≠ []) (apart : ending = [JsString.carriageReturn] →
      other.head? ≠ some JsString.lineFeed) : EndsLine ending other := by
  cases ends with
  | lineFeed => exact .lineFeed other
  | pair => exact .pair other
  | carriageReturn lone => exact .carriageReturn (apart rfl)
  | none => exact absurd rfl present

/-- **Lines and seams.** Whole lines at the front of a text stay its lines before any other text,
if no line ending is made between them. -/
theorem rawLines_append {front back : List RawLine} (shape : rawLines text = front ++ back)
    (ended : ∀ line ∈ front, line.ending ≠ []) (apart : ¬ Fuses (rawText front) rest) :
    rawLines (rawText front ++ rest) = front ++ rawLines rest := by
  induction front generalizing text with
  | nil => rfl
  | cons line front ih =>
      obtain ⟨after, rfl, before, lines⟩ := lineBefore_of_rawLines shape
      have afterText := (rawLines_drop lines).1
      have later : ¬ Fuses (rawText front) rest := by
        rintro ⟨last, head⟩
        refine apart ⟨?_, head⟩
        rw [rawText_cons, List.getLast?_append, last]
        rfl
      have kept := ih lines (fun other listed => ended other (List.mem_cons_of_mem _ listed)) later
      have first : LineBefore line (rawText front ++ rest) := by
        refine ⟨before.unbroken, before.ends.before (ended line List.mem_cons_self) ?_,
          before.nonempty⟩
        intro single
        cases front with
        | nil =>
            intro head
            refine apart ⟨?_, head⟩
            rw [rawText_cons, RawLine.raw, single]
            simp [rawText]
        | cons second front =>
            have some : rawText (second :: front) ≠ [] := by
              obtain ⟨_, _, inner, _⟩ := lineBefore_of_rawLines lines
              rw [rawText_cons]
              exact List.append_ne_nil_of_left_ne_nil inner.nonempty _
            have ends := before.ends
            rw [single] at ends
            cases ends with
            | carriageReturn lone =>
                rw [afterText, List.head?_append_of_ne_nil _ some] at lone
                rwa [List.head?_append_of_ne_nil _ some]
      rw [rawText_cons, List.append_assoc, rawLines_line first, kept]
      rfl

/-- Whole lines at the front of a text are the lines of their own text. -/
theorem rawLines_rawText {front back : List RawLine} (shape : rawLines text = front ++ back) :
    rawLines (rawText front) = front := by
  by_cases last : back = []
  · rw [last, List.append_nil] at shape
    rw [← shape, rawText_rawLines]
  · have alone := @rawLines_append [] text front back shape (ending_ne_nil shape last)
      (not_fuses_of_head nofun)
    rwa [List.append_nil, rawLines, List.append_nil] at alone

/-- A line with its ending as one line feed. -/
def RawLine.normal (line : RawLine) : RawLine :=
  ⟨line.text, if line.ending = [] then [] else [lineFeed]⟩

theorem LineBefore.normal (before : LineBefore line rest) :
    LineBefore line.normal (lfNormalize rest) := by
  obtain ⟨text, ending⟩ := line
  obtain ⟨unbroken, ends, nonempty⟩ := before
  refine ⟨unbroken, ?_, ?_⟩
  · cases ends <;> first | exact .none | exact .lineFeed _
  · by_cases none : ending = []
    · rw [RawLine.raw, none, List.append_nil] at nonempty
      simpa [RawLine.raw, RawLine.normal, none] using nonempty
    · simp [RawLine.raw, RawLine.normal, none]

theorem lfNormalize_line (before : LineBefore line rest) :
    lfNormalize (line.raw ++ rest) = line.normal.raw ++ lfNormalize rest := by
  obtain ⟨text, ending⟩ := line
  obtain ⟨unbroken, ends, _⟩ := before
  have normal : lfNormalize (ending ++ rest) =
      (if ending = [] then [] else [lineFeed]) ++ lfNormalize rest := by
    cases ends with
    | lineFeed => exact lfNormalize_cons_lineFeed rest
    | pair => exact lfNormalize_crlf rest
    | carriageReturn lone => exact lfNormalize_cr lone
    | none => rfl
  rw [RawLine.raw, RawLine.raw, RawLine.normal, List.append_assoc,
    lfNormalize_append (not_fuses_of_not_mem unbroken.2 _), lfNormalize_of_not_mem unbroken.2,
    normal, List.append_assoc]

/-- **Normalised lines.** Normalisation changes the endings of the lines only. -/
theorem rawLines_lfNormalize (text : JsString) :
    rawLines (lfNormalize text) = (rawLines text).map RawLine.normal := by
  induction text using rawLines_induction with
  | nil => rfl
  | line line rest before ih =>
      rw [lfNormalize_line before, rawLines_line before.normal, ih, rawLines_line before,
        List.map_cons]

theorem lfNormalize_rawText {front back : List RawLine} (shape : rawLines text = front ++ back) :
    lfNormalize (rawText front) = rawText (front.map RawLine.normal) := by
  rw [← rawText_rawLines (lfNormalize (rawText front)), rawLines_lfNormalize,
    rawLines_rawText shape]

end Lines

end Kb1Daemon
