import Kb1Daemon.Text.RawLines

/-! # Prepending below the frontmatter

The scan for the closing delimiter stops below the first line that trims to it
(`frontmatterInsertionPoint_eq_some_iff`). Prepending inserts one block there; the delimiter closes
the frontmatter of the result too, and of every result of prepending again (`prependContent_spec`).
-/

namespace Kb1Daemon

open JsString

/-- A note begins with frontmatter: the lines above its closing delimiter, the closing delimiter's
line and the lines below. -/
structure Frontmatter (content : JsString) (above : List RawLine) (closing : RawLine)
    (below : List RawLine) : Prop where
  lines : rawLines content = above ++ closing :: below
  opened : ∃ ending body, above = ⟨frontmatterDelimiter, ending⟩ :: body ∧
    ∀ line ∈ body, trim line.text ≠ frontmatterDelimiter
  closed : trim closing.text = frontmatterDelimiter

/-- The length of the lines down to the first one that trims to the delimiter. -/
def closedBelow : List RawLine → Option Nat
  | [] => none
  | line :: lines =>
      if trim line.text = frontmatterDelimiter then some line.raw.length
      else (closedBelow lines).map (line.raw.length + ·)

section Scan

variable {line : RawLine} {content rest : JsString}

theorem nextLineEnd_line (before : LineBefore line rest) :
    nextLineEnd (line.raw ++ rest) = (line.text.length, line.raw.length) := by
  obtain ⟨text, ending⟩ := line
  obtain ⟨unbroken, ends, nonempty⟩ := before
  clear nonempty
  induction text with
  | nil =>
      cases ends with
      | lineFeed => rfl
      | pair => rfl
      | carriageReturn lone =>
          change nextLineEnd (carriageReturn :: rest) = (0, 1)
          rw [nextLineEnd, if_neg (by decide), if_pos rfl, if_neg lone]
      | none => rfl
  | cons unit text ih =>
      have feed : unit ≠ lineFeed := fun same => unbroken.1 (same ▸ List.mem_cons_self)
      have ret : unit ≠ carriageReturn := fun same => unbroken.2 (same ▸ List.mem_cons_self)
      have later : nextLineEnd (text ++ ending ++ rest) = (text.length, (text ++ ending).length) :=
        ih ⟨fun inside => unbroken.1 (List.mem_cons_of_mem _ inside),
          fun inside => unbroken.2 (List.mem_cons_of_mem _ inside)⟩ ends
      change nextLineEnd (unit :: (text ++ ending ++ rest)) = _
      rw [nextLineEnd, if_neg feed, if_neg ret, later]
      rfl

/-- The scan finds the first line that trims to the delimiter. -/
theorem frontmatterClosing_eq (front : JsString) {fuel : Nat} (fueled : rest.length ≤ fuel) :
    frontmatterClosing (front ++ rest) fuel front.length =
      (closedBelow (rawLines rest)).map (front.length + ·) := by
  induction rest using rawLines_induction generalizing front fuel with
  | nil =>
      have stop : ¬ front.length < (front ++ []).length := by
        rw [List.append_nil]
        exact Nat.lt_irrefl _
      cases fuel with
      | zero => rfl
      | succ fuel => rw [frontmatterClosing, if_neg stop]; rfl
  | line line rest before ih =>
      have positive := List.length_pos_iff.mpr before.nonempty
      rw [List.length_append] at fueled
      obtain ⟨fuel, rfl⟩ := Nat.exists_eq_succ_of_ne_zero (show fuel ≠ 0 by omega)
      have more : front.length < (front ++ (line.raw ++ rest)).length := by
        rw [List.length_append, List.length_append]
        omega
      have text : (line.raw ++ rest).take line.text.length = line.text := by
        rw [RawLine.raw, List.append_assoc, List.take_left]
      have later := ih (front ++ line.raw) (show rest.length ≤ fuel by omega)
      rw [List.length_append, List.append_assoc] at later
      rw [frontmatterClosing, if_pos more, List.drop_left]
      dsimp only
      rw [nextLineEnd_line before, text, later, rawLines_line before, closedBelow]
      split_ifs with closes
      · rfl
      · cases closedBelow (rawLines rest) with
        | none => rfl
        | some below => exact congrArg some (Nat.add_assoc _ _ _)

theorem closedBelow_eq_some_iff {lines : List RawLine} {below : Nat} :
    closedBelow lines = some below ↔
      ∃ body closing others, lines = body ++ closing :: others ∧
        (∀ line ∈ body, trim line.text ≠ frontmatterDelimiter) ∧
        trim closing.text = frontmatterDelimiter ∧
        below = (rawText (body ++ [closing])).length := by
  induction lines generalizing below with
  | nil => simp [closedBelow]
  | cons line lines ih =>
      rw [closedBelow]
      constructor
      · intro found
        split_ifs at found with closes
        · cases found
          refine ⟨[], line, lines, rfl, nofun, closes, ?_⟩
          rw [List.nil_append, rawText, List.flatMap_singleton]
        · obtain ⟨later, same, rfl⟩ := Option.map_eq_some_iff.mp found
          obtain ⟨body, closing, others, rfl, unclosed, closed, rfl⟩ := ih.mp same
          refine ⟨line :: body, closing, others, rfl, ?_, closed, ?_⟩
          · intro other listed
            rcases List.mem_cons.mp listed with rfl | inside
            · exact closes
            · exact unclosed other inside
          · rw [List.cons_append, rawText_cons, List.length_append]
      · rintro ⟨body, closing, others, shape, unclosed, closed, rfl⟩
        cases body with
        | nil =>
            cases shape
            rw [if_pos closed, List.nil_append, rawText, List.flatMap_singleton]
        | cons first body =>
            cases shape
            rw [if_neg (unclosed line List.mem_cons_self), ih.mpr ⟨body, closing, others, rfl,
              fun other inside => unclosed other (List.mem_cons_of_mem _ inside), closed, rfl⟩,
              List.cons_append, rawText_cons, List.length_append]
            rfl

/-- The units of a delimiter belong to no line ending. -/
theorem not_mem_frontmatterDelimiter :
    lineFeed ∉ frontmatterDelimiter ∧ carriageReturn ∉ frontmatterDelimiter := by decide

/-- A text that begins with the delimiter has it on its first line. -/
theorem exists_of_take_eq (before : LineBefore line rest)
    (opens : (line.raw ++ rest).take 3 = frontmatterDelimiter) :
    ∃ more, line.text = frontmatterDelimiter ++ more := by
  have parts : line.text ++ (line.ending ++ rest) =
      frontmatterDelimiter ++ (line.raw ++ rest).drop 3 := by
    rw [← opens, List.take_append_drop, RawLine.raw, List.append_assoc]
  rcases List.append_eq_append_iff.mp parts with ⟨left, whole, ends⟩ | ⟨more, whole, _⟩
  · cases left with
    | nil => exact ⟨[], by rw [List.append_nil] at whole ⊢; exact whole.symm⟩
    | cons unit left =>
        have inside : unit ∈ frontmatterDelimiter := by
          rw [whole]
          exact List.mem_append_right _ List.mem_cons_self
        have kinds := before.ends
        generalize line.ending = ending at kinds ends
        cases kinds with
        | lineFeed =>
            rw [← (List.cons.inj ends).1] at inside
            exact absurd inside not_mem_frontmatterDelimiter.1
        | pair =>
            rw [← (List.cons.inj ends).1] at inside
            exact absurd inside not_mem_frontmatterDelimiter.2
        | carriageReturn =>
            rw [← (List.cons.inj ends).1] at inside
            exact absurd inside not_mem_frontmatterDelimiter.2
        | none => cases ends
  · exact ⟨more, whole⟩

/-- The opening delimiter is a first line with an ending. -/
theorem frontmatterOpening_line (before : LineBefore line rest) :
    frontmatterOpening (line.raw ++ rest) =
      if line.text = frontmatterDelimiter ∧ line.ending ≠ [] then some line.raw.length
      else none := by
  rw [frontmatterOpening]
  by_cases opens : (line.raw ++ rest).take 3 = frontmatterDelimiter
  · rw [if_pos opens]
    obtain ⟨more, shape⟩ := exists_of_take_eq before opens
    obtain ⟨text, ending⟩ := line
    dsimp only at shape
    subst shape
    obtain ⟨unbroken, ends, _⟩ := before
    cases more with
    | nil =>
        cases ends with
        | lineFeed => rfl
        | pair => rfl
        | carriageReturn lone =>
            change (if carriageReturn = lineFeed then some 4
              else if carriageReturn = carriageReturn then
                some (if rest.head? = some lineFeed then 5 else 4)
              else none) = some 4
            rw [if_neg (by decide), if_pos rfl, if_neg lone]
        | none => rfl
    | cons unit more =>
        have feed : unit ≠ lineFeed := fun same =>
          unbroken.1 (List.mem_append_right _ (same ▸ List.mem_cons_self))
        have ret : unit ≠ carriageReturn := fun same =>
          unbroken.2 (List.mem_append_right _ (same ▸ List.mem_cons_self))
        have longer : frontmatterDelimiter ++ unit :: more ≠ frontmatterDelimiter :=
          fun same => absurd (List.append_right_eq_self.mp same) nofun
        rw [if_neg fun both => longer both.1]
        change (if unit = lineFeed then some 4 else if unit = carriageReturn then _ else none) = _
        rw [if_neg feed, if_neg ret]
  · rw [if_neg opens, if_neg]
    rintro ⟨same, _⟩
    apply opens
    rw [RawLine.raw, same, List.append_assoc]
    rfl

theorem frontmatterInsertionPoint_line (before : LineBefore line rest) :
    frontmatterInsertionPoint (line.raw ++ rest) =
      if line.text = frontmatterDelimiter ∧ line.ending ≠ [] then
        (closedBelow (rawLines rest)).map (line.raw.length + ·)
      else none := by
  rw [frontmatterInsertionPoint, frontmatterOpening_line before]
  split_ifs with opens
  · exact frontmatterClosing_eq line.raw (by rw [List.length_append]; omega)
  · rfl

/-- **The insertion point.** It is below the closing delimiter's line. -/
theorem frontmatterInsertionPoint_eq_some_iff {point : Nat} :
    frontmatterInsertionPoint content = some point ↔
      ∃ above closing below, Frontmatter content above closing below ∧
        point = (rawText (above ++ [closing])).length := by
  by_cases empty : content = []
  · rw [empty]
    refine ⟨nofun, ?_⟩
    rintro ⟨above, closing, below, ⟨lines, _, _⟩, _⟩
    exact absurd lines.symm (List.append_ne_nil_of_right_ne_nil _ (List.cons_ne_nil _ _))
  · obtain ⟨line, rest, rfl, before⟩ := exists_lineBefore empty
    rw [frontmatterInsertionPoint_line before]
    constructor
    · intro found
      split_ifs at found with opens
      obtain ⟨later, same, rfl⟩ := Option.map_eq_some_iff.mp found
      obtain ⟨body, closing, others, shape, unclosed, closed, rfl⟩ := closedBelow_eq_some_iff.mp same
      refine ⟨line :: body, closing, others, ⟨?_, ⟨line.ending, body, ?_, unclosed⟩, closed⟩, ?_⟩
      · rw [rawLines_line before, shape]
        rfl
      · rw [← opens.1]
      · rw [List.cons_append, rawText_cons, List.length_append]
    · rintro ⟨above, closing, below, ⟨lines, ⟨ending, body, rfl, unclosed⟩, closed⟩, rfl⟩
      rw [rawLines_line before] at lines
      obtain ⟨rfl, shape⟩ := List.cons.inj lines
      have some : ending ≠ [] := by
        intro none
        have ends := before.ends
        dsimp only at ends
        rw [none] at ends
        cases ends
        exact absurd shape.symm (List.append_ne_nil_of_right_ne_nil _ (List.cons_ne_nil _ _))
      rw [if_pos ⟨rfl, some⟩, closedBelow_eq_some_iff.mpr ⟨body, closing, below, shape, unclosed,
        closed, rfl⟩, List.cons_append, rawText_cons, List.length_append]
      rfl

end Scan

/-- The newline between a closing delimiter without a line ending and an addition. -/
def prependSeparator (front addition : JsString) : JsString :=
  if front ≠ [] ∧ addition ≠ [] ∧ ¬ endsWithLineEnding front then [lineFeed] else []

section Prepend

variable {content addition : JsString} {above below : List RawLine} {closing : RawLine}

theorem Frontmatter.text (frontmatter : Frontmatter content above closing below) :
    content = rawText (above ++ [closing]) ++ rawText below ∧ rawLines (rawText below) = below := by
  refine rawLines_drop ?_
  rw [frontmatter.lines, List.append_assoc, List.singleton_append]

theorem Frontmatter.closing_ne_nil (frontmatter : Frontmatter content above closing below) :
    closing.text ≠ [] := by
  intro none
  have closed := frontmatter.closed
  rw [none] at closed
  exact absurd closed (by decide)

/-- The closing delimiter's line, before the lines below it. -/
theorem Frontmatter.lineBefore (frontmatter : Frontmatter content above closing below) :
    LineBefore closing (rawText below) := by
  have others := (rawLines_drop frontmatter.lines).2
  obtain ⟨rest, whole, before, same⟩ := lineBefore_of_rawLines others
  rw [rawText_cons, List.append_cancel_left_eq] at whole
  rwa [whole]

theorem Frontmatter.length_eq (frontmatter : Frontmatter content above closing below) :
    frontmatterInsertionPoint content = some (rawText (above ++ [closing])).length :=
  frontmatterInsertionPoint_eq_some_iff.mpr ⟨above, closing, below, frontmatter, rfl⟩

/-- The lines down to the closing delimiter end in a line ending if the delimiter's line does. -/
theorem Frontmatter.endsWithLineEnding_iff (frontmatter : Frontmatter content above closing below) :
    endsWithLineEnding (rawText (above ++ [closing])) = true ↔ closing.ending ≠ [] := by
  have before := frontmatter.lineBefore
  have ends := before.ends
  rw [rawText_append, rawText_cons, RawLine.raw, show rawText [] = [] from rfl, List.append_nil,
    endsWithLineEnding, Bool.or_eq_true, decide_eq_true_eq, decide_eq_true_eq, ← List.append_assoc]
  generalize closing.ending = ending at ends
  generalize rawText below = rest at ends
  cases ends with
  | lineFeed => simp
  | pair => simp
  | carriageReturn => simp
  | none =>
      obtain ⟨last, same⟩ := List.getLast?_isSome.mpr frontmatter.closing_ne_nil |>
        Option.isSome_iff_exists.mp
      have inside := List.mem_of_getLast? same
      rw [List.append_nil, List.getLast?_append, same, Option.some_or, Option.some_inj,
        Option.some_inj]
      refine ⟨?_, fun absurd => (absurd rfl).elim⟩
      rintro (rfl | rfl)
      · exact absurd inside before.unbroken.1
      · exact absurd inside before.unbroken.2

/-- The separator is for a closing delimiter without a line ending. -/
theorem Frontmatter.separator_eq (frontmatter : Frontmatter content above closing below)
    (addition : JsString) :
    prependSeparator (rawText (above ++ [closing])) addition =
      if addition ≠ [] ∧ closing.ending = [] then [lineFeed] else [] := by
  have some : rawText (above ++ [closing]) ≠ [] := by
    rw [rawText_append, rawText_cons]
    exact List.append_ne_nil_of_right_ne_nil _
      (List.append_ne_nil_of_left_ne_nil frontmatter.lineBefore.nonempty _)
  refine if_congr ⟨fun all => ⟨all.2.1, ?_⟩, fun both => ⟨some, both.1, ?_⟩⟩ rfl rfl
  · exact not_not.mp fun ended => all.2.2 (frontmatter.endsWithLineEnding_iff.mpr ended)
  · exact fun ended => frontmatter.endsWithLineEnding_iff.mp ended both.2

/-- What follows a line may take a line feed into its ending. -/
theorem exists_ending {ending rest : JsString} (ends : EndsLine ending rest) (some : ending ≠ [])
    (after : JsString) : ∃ longer others, ending <+: longer ∧ EndsLine longer others ∧
      longer ++ others = ending ++ after := by
  cases ends with
  | lineFeed => exact ⟨_, after, List.prefix_rfl, .lineFeed after, rfl⟩
  | pair => exact ⟨_, after, List.prefix_rfl, .pair after, rfl⟩
  | carriageReturn =>
      by_cases pair : after.head? = .some lineFeed
      · obtain ⟨others, rfl⟩ := List.head?_eq_some_iff.mp pair
        exact ⟨_, others, List.prefix_append [carriageReturn] [lineFeed], .pair others, rfl⟩
      · exact ⟨_, after, List.prefix_rfl, .carriageReturn pair, rfl⟩
  | none => exact absurd rfl some

/-- Another text behind the closing delimiter leaves the frontmatter. -/
theorem Frontmatter.replace (frontmatter : Frontmatter content above closing below)
    {ending others : JsString} (ends : EndsLine ending others) :
    Frontmatter (rawText above ++ (closing.text ++ (ending ++ others))) above
      ⟨closing.text, ending⟩ (rawLines others) := by
  refine ⟨?_, frontmatter.opened, frontmatter.closed⟩
  have before : LineBefore ⟨closing.text, ending⟩ others :=
    ⟨frontmatter.lineBefore.unbroken, ends,
      List.append_ne_nil_of_left_ne_nil frontmatter.closing_ne_nil _⟩
  have apart : ¬ Fuses (rawText above) (closing.text ++ (ending ++ others)) := by
    refine not_fuses_of_head ?_
    rw [List.head?_append_of_ne_nil _ frontmatter.closing_ne_nil]
    exact fun head => frontmatter.lineBefore.unbroken.1 (List.mem_of_head? head)
  rw [rawLines_append frontmatter.lines
    (ending_ne_nil frontmatter.lines (List.cons_ne_nil _ _)) apart, ← List.append_assoc closing.text]
  exact congrArg _ (rawLines_line before)

/-- The parts of the result. -/
theorem prependContent_eq (content addition : JsString)
    (within : (frontmatterInsertionPoint content).getD 0 ≤ content.length) :
    prependContent content addition =
      content.take ((frontmatterInsertionPoint content).getD 0) ++
        (prependSeparator (content.take ((frontmatterInsertionPoint content).getD 0))
          (lfNormalize addition) ++ lfNormalize addition) ++
        content.drop ((frontmatterInsertionPoint content).getD 0) := by
  have some : 0 < (frontmatterInsertionPoint content).getD 0 ↔
      content.take ((frontmatterInsertionPoint content).getD 0) ≠ [] := by
    rw [← List.length_pos_iff, List.length_take, Nat.min_eq_left within]
  rw [prependContent, prependSeparator]
  simp only [some, List.length_pos_iff, ne_eq, List.append_assoc]

/-- The insertion point cuts the note below the closing delimiter's line. -/
theorem Frontmatter.cut (frontmatter : Frontmatter content above closing below) :
    content.take ((frontmatterInsertionPoint content).getD 0) = rawText (above ++ [closing]) ∧
      content.drop ((frontmatterInsertionPoint content).getD 0) = rawText below ∧
      (frontmatterInsertionPoint content).getD 0 ≤ content.length := by
  have parts := frontmatter.text.1
  rw [frontmatter.length_eq, Option.getD_some]
  generalize rawText (above ++ [closing]) = front at parts
  rw [parts, List.length_append]
  exact ⟨List.take_left, List.drop_left, Nat.le_add_right _ _⟩

theorem Frontmatter.prependContent_eq (frontmatter : Frontmatter content above closing below)
    (addition : JsString) :
    prependContent content addition = rawText (above ++ [closing]) ++
      (prependSeparator (rawText (above ++ [closing])) (lfNormalize addition) ++
        lfNormalize addition) ++ rawText below := by
  obtain ⟨front, back, within⟩ := frontmatter.cut
  rw [Kb1Daemon.prependContent_eq content addition within, front, back]

/-- Without frontmatter the addition stands at the start. -/
theorem prependContent_eq_of_none
    (none : ¬ ∃ above closing below, Frontmatter content above closing below)
    (addition : JsString) :
    frontmatterInsertionPoint content = .none ∧
      prependContent content addition = lfNormalize addition ++ content := by
  have start : frontmatterInsertionPoint content = .none := by
    rw [Option.eq_none_iff_forall_ne_some]
    intro point same
    obtain ⟨above, closing, below, frontmatter, _⟩ :=
      frontmatterInsertionPoint_eq_some_iff.mp same
    exact none ⟨above, closing, below, frontmatter⟩
  have parts := Kb1Daemon.prependContent_eq content addition
    (by rw [start]; exact Nat.zero_le _)
  rw [start] at parts
  exact ⟨start, parts⟩

/-- **Prepending again.** The closing delimiter closes the frontmatter of the result too. -/
theorem Frontmatter.prepended (frontmatter : Frontmatter content above closing below)
    (addition : JsString) :
    ∃ ending others, Frontmatter (prependContent content addition) above ⟨closing.text, ending⟩
      others ∧ closing.ending <+: ending := by
  have before := frontmatter.lineBefore
  have shape := frontmatter.prependContent_eq addition
  rw [frontmatter.separator_eq, rawText_append, rawText_cons, RawLine.raw,
    show rawText [] = [] from rfl, List.append_nil] at shape
  by_cases ended : closing.ending = []
  · have ends := before.ends
    rw [ended] at ends
    have last : rawText below = [] := by
      generalize rawText below = rest at ends
      cases ends
      rfl
    by_cases empty : lfNormalize addition = []
    · have same := frontmatter.replace ends
      rw [last] at same shape
      rw [if_neg fun both => both.1 empty, ended, empty] at shape
      simp only [List.append_nil] at shape same
      rw [← shape] at same
      exact ⟨[], _, same, ended ▸ List.nil_prefix⟩
    · have added := frontmatter.replace (.lineFeed (lfNormalize addition))
      rw [if_pos ⟨empty, ended⟩, last, ended] at shape
      simp only [List.append_nil, List.append_assoc] at shape added
      rw [← shape] at added
      exact ⟨[lineFeed], _, added, ended ▸ List.nil_prefix⟩
  · obtain ⟨longer, others, grows, ends, same⟩ :=
      exists_ending before.ends ended (lfNormalize addition ++ rawText below)
    have added := frontmatter.replace ends
    rw [if_neg fun both => ended both.2] at shape
    simp only [List.nil_append, List.append_assoc] at shape
    rw [same, ← shape] at added
    exact ⟨longer, _, added, grows⟩

/-- The lines down to the closing delimiter, with a longer ending. -/
theorem rawText_closing_front {ending : JsString} (grows : closing.ending <+: ending) :
    rawText (above ++ [closing]) <+: rawText (above ++ [⟨closing.text, ending⟩]) := by
  obtain ⟨more, rfl⟩ := grows
  refine ⟨more, ?_⟩
  rw [rawText_append, rawText_append, rawText_cons, rawText_cons, RawLine.raw, RawLine.raw,
    show rawText [] = [] from rfl]
  simp only [List.append_nil, List.append_assoc]

/-- Prepending any number of times leaves the frontmatter. -/
theorem Frontmatter.prependedAll (frontmatter : Frontmatter content above closing below)
    (additions : List JsString) :
    ∃ ending others, Frontmatter (additions.foldl prependContent content) above
      ⟨closing.text, ending⟩ others ∧ closing.ending <+: ending := by
  induction additions generalizing content closing below with
  | nil => exact ⟨closing.ending, below, frontmatter, List.prefix_rfl⟩
  | cons addition additions ih =>
      obtain ⟨ending, others, kept, grows⟩ := frontmatter.prepended addition
      obtain ⟨last, behind, whole, more⟩ := ih kept
      exact ⟨last, behind, whole, grows.trans more⟩

/-- **Prepending.** The result is the note with one block inserted: the addition, behind a newline
where the closing delimiter's line has none. The block stands at the start, or below the closing
delimiter's line, which closes the frontmatter of the result too; prepending again keeps the
frontmatter as it is. -/
theorem prependContent_spec (content addition : JsString) :
    (∃ front back, content = front ++ back ∧
      prependContent content addition =
        front ++ (prependSeparator front (lfNormalize addition) ++ lfNormalize addition) ++ back ∧
      ((∃ above closing below, Frontmatter content above closing below ∧
          front = rawText (above ++ [closing])) ∨
        (¬ ∃ above closing below, Frontmatter content above closing below) ∧ front = [])) ∧
      (∀ above closing below, Frontmatter content above closing below →
        ∃ ending others,
          Frontmatter (prependContent content addition) above ⟨closing.text, ending⟩ others ∧
            closing.ending <+: ending ∧
            frontmatterInsertionPoint (prependContent content addition) =
              some (rawText (above ++ [⟨closing.text, ending⟩])).length) ∧
      ∀ above closing below, Frontmatter content above closing below → ∀ additions : List JsString,
        rawText (above ++ [closing]) <+: additions.foldl prependContent content ∧
          ∃ ending others,
            Frontmatter (additions.foldl prependContent content) above ⟨closing.text, ending⟩
              others := by
  refine ⟨?_, ?_, ?_⟩
  · by_cases found : ∃ above closing below, Frontmatter content above closing below
    · obtain ⟨above, closing, below, frontmatter⟩ := found
      exact ⟨rawText (above ++ [closing]), rawText below, frontmatter.text.1,
        frontmatter.prependContent_eq addition, .inl ⟨above, closing, below, frontmatter, rfl⟩⟩
    · exact ⟨[], content, rfl, (prependContent_eq_of_none found addition).2, .inr ⟨found, rfl⟩⟩
  · intro above closing below frontmatter
    obtain ⟨ending, others, kept, grows⟩ := frontmatter.prepended addition
    exact ⟨ending, others, kept, grows, kept.length_eq⟩
  · intro above closing below frontmatter additions
    obtain ⟨ending, others, kept, grows⟩ := frontmatter.prependedAll additions
    refine ⟨?_, ending, others, kept⟩
    rw [kept.text.1]
    exact (rawText_closing_front grows).trans (List.prefix_append _ _)

end Prepend

end Kb1Daemon
