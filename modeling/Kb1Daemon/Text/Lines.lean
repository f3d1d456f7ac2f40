import Kb1Daemon.Foundation.Numeral
import Mathlib.Data.List.DropRight

/-! # Lines and the cleaning of messages

Git cleans a message before it stores it: trailing white space goes, runs of blank lines
become one, and blank lines at the ends disappear. The lines that are not blank survive,
stripped at their ends (`JsString.cleaned_nonblank`), and they are found again by
splitting the stored message (`JsString.lines_stored`).
-/

namespace JsString

/-- `split` at line feeds. -/
def lines (text : JsString) : List JsString := text.splitOn lineFeed

/-- `join` with line feeds. -/
def unlines (lines : List JsString) : JsString := [lineFeed].intercalate lines

/-- The white space that Git strips at the end of a line. -/
def isGitSpace (unit : CodeUnit) : Bool := unit ∈ ([9, 10, 13, 32] : List CodeUnit)

/-- A line without trailing white space. -/
def stripEnd (line : JsString) : JsString := line.rdropWhile isGitSpace

/-- Collapse runs of blank lines. -/
def squeeze : List JsString → List JsString
  | [] => []
  | [line] => [line]
  | first :: second :: rest =>
      if first.isEmpty && second.isEmpty then squeeze (second :: rest)
      else first :: squeeze (second :: rest)

/-- The lines of a cleaned message. -/
def cleaned (text : JsString) : List JsString :=
  (squeeze (((lines text).map stripEnd).dropWhile List.isEmpty)).rdropWhile List.isEmpty

/-- `git stripspace`. -/
def stripspace (text : JsString) : JsString := (cleaned text).flatMap fun line => line ++ [lineFeed]

/-- The lines of a text that are not blank, stripped at their ends. -/
def nonblank (text : JsString) : List JsString :=
  ((lines text).map stripEnd).filter fun line => !line.isEmpty

/-- No line has a line feed. -/
theorem lineFeed_not_mem_lines (text : JsString) : ∀ line ∈ lines text, lineFeed ∉ line := by
  unfold lines
  induction text with
  | nil =>
      intro line member
      rw [List.splitOn_nil] at member
      rw [List.mem_singleton.mp member]
      exact List.not_mem_nil
  | cons unit text ih =>
      intro line member
      rw [List.splitOn_cons_eq_if_modifyHead] at member
      split at member
      · rcases List.mem_cons.mp member with rfl | later
        · exact List.not_mem_nil
        · exact ih line later
      · rename_i other
        obtain ⟨first, rest, split⟩ := List.exists_cons_of_ne_nil (List.splitOn_ne_nil lineFeed text)
        rw [split] at member ih
        rcases List.mem_cons.mp member with rfl | later
        · rw [List.mem_cons]
          rintro (same | inside)
          · exact other (beq_iff_eq.mpr same.symm)
          · exact ih first List.mem_cons_self inside
        · exact ih line (List.mem_cons_of_mem _ later)

/-- The units of the lines are units of the text. -/
theorem subset_of_mem_lines (text : JsString) : ∀ line ∈ lines text, ∀ unit ∈ line, unit ∈ text := by
  unfold lines
  induction text with
  | nil =>
      intro line member
      rw [List.splitOn_nil] at member
      rw [List.mem_singleton.mp member]
      exact fun _ => id
  | cons unit text ih =>
      intro line member
      rw [List.splitOn_cons_eq_if_modifyHead] at member
      split at member
      · rcases List.mem_cons.mp member with rfl | later
        · exact nofun
        · exact fun other inside => List.mem_cons_of_mem _ (ih line later other inside)
      · obtain ⟨first, rest, split⟩ := List.exists_cons_of_ne_nil (List.splitOn_ne_nil lineFeed text)
        rw [split] at member ih
        rcases List.mem_cons.mp member with rfl | later
        · intro other inside
          rcases List.mem_cons.mp inside with rfl | inside
          · exact List.mem_cons_self
          · exact List.mem_cons_of_mem _ (ih first List.mem_cons_self other inside)
        · exact fun other inside =>
            List.mem_cons_of_mem _ (ih line (List.mem_cons_of_mem _ later) other inside)

theorem lines_append_lineFeed (front back : JsString) :
    lines (front ++ lineFeed :: back) = lines front ++ lines back :=
  List.splitOn_append_cons_self front back

theorem lines_of_not_mem {text : JsString} (single : lineFeed ∉ text) : lines text = [text] :=
  List.splitOn_eq_singleton single

/-- The units of joined texts are theirs, and line feeds. -/
theorem mem_unlines {texts : List JsString} {unit : CodeUnit} (member : unit ∈ unlines texts) :
    unit = lineFeed ∨ ∃ text ∈ texts, unit ∈ text := by
  induction texts with
  | nil => cases member
  | cons first rest ih =>
      cases rest with
      | nil =>
          rw [unlines, List.intercalate_singleton] at member
          exact .inr ⟨first, List.mem_cons_self, member⟩
      | cons second rest =>
          rw [unlines, List.intercalate_cons_cons, List.append_assoc, List.mem_append,
            List.singleton_append, List.mem_cons] at member
          rcases member with own | mark | later
          · exact .inr ⟨first, List.mem_cons_self, own⟩
          · exact .inl mark
          · rcases ih later with mark | ⟨text, listed, inside⟩
            · exact .inl mark
            · exact .inr ⟨text, List.mem_cons_of_mem _ listed, inside⟩

/-- The lines of joined texts. -/
theorem lines_unlines {texts : List JsString} (some : texts ≠ []) :
    lines (unlines texts) = texts.flatMap lines := by
  induction texts with
  | nil => exact absurd rfl some
  | cons first rest ih =>
      cases rest with
      | nil => rw [unlines, List.intercalate_singleton, List.flatMap_singleton]
      | cons second rest =>
          have split := ih nofun
          rw [unlines, List.intercalate_cons_cons, List.append_assoc, List.singleton_append,
            lines_append_lineFeed, List.flatMap_cons]
          exact congrArg _ split

theorem squeeze_nonblank (lines : List JsString) :
    (squeeze lines).filter (fun line => !line.isEmpty) =
      lines.filter fun line => !line.isEmpty := by
  induction lines with
  | nil => rfl
  | cons first rest ih =>
      cases rest with
      | nil => rfl
      | cons second rest =>
          unfold squeeze
          split
          · rename_i blank
            have empty := (Bool.and_eq_true_iff.mp blank).1
            exact ih.trans (List.filter_cons_of_neg (by rw [empty]; decide)).symm
          · rw [List.filter_cons, List.filter_cons, ih]

theorem dropWhile_nonblank (lines : List JsString) :
    (lines.dropWhile List.isEmpty).filter (fun line => !line.isEmpty) =
      lines.filter fun line => !line.isEmpty := by
  induction lines with
  | nil => rfl
  | cons first rest ih =>
      rw [List.dropWhile_cons]
      split
      · rename_i blank
        rw [ih, List.filter_cons_of_neg (by simp [blank])]
      · rfl

/-- Cleaning keeps the lines that are not blank. -/
theorem cleaned_nonblank (text : JsString) :
    (cleaned text).filter (fun line => !line.isEmpty) = nonblank text := by
  unfold cleaned nonblank List.rdropWhile
  rw [List.filter_reverse, dropWhile_nonblank, ← List.filter_reverse, List.reverse_reverse,
    squeeze_nonblank, dropWhile_nonblank]

/-- The last line of a cleaned message is the last one that is not blank. -/
theorem getLast?_cleaned (text : JsString) :
    (cleaned text).getLast? = (nonblank text).getLast? := by
  rw [← cleaned_nonblank]
  rcases List.eq_nil_or_concat (cleaned text) with empty | ⟨front, last, shape⟩
  · rw [empty]
    rfl
  · have some : ¬ last.isEmpty = true := by
      have kept := @List.rdropWhile_last_not _ List.isEmpty
        (squeeze (((lines text).map stripEnd).dropWhile List.isEmpty))
        (by
          change cleaned text ≠ []
          rw [shape]
          simp)
      change ¬ List.isEmpty ((cleaned text).getLast _) = true at kept
      simp only [shape, List.concat_eq_append, List.getLast_append_singleton] at kept
      exact kept
    rw [shape, List.concat_eq_append, List.filter_append, List.getLast?_append,
      List.getLast?_append, List.filter_singleton]
    simp [some]

/-- Joined texts end as the last one, if it is not empty. -/
theorem getLast?_unlines {texts : List JsString} {last : JsString}
    (found : texts.getLast? = some last) (some : last ≠ []) :
    (unlines texts).getLast? = last.getLast? := by
  induction texts with
  | nil => cases found
  | cons first rest ih =>
      cases rest with
      | nil =>
          obtain rfl := Option.some.inj found
          rw [unlines, List.intercalate_singleton]
          rfl
      | cons second rest =>
          rw [List.getLast?_cons_cons] at found
          obtain ⟨unit, same⟩ := Option.isSome_iff_exists.mp (List.getLast?_isSome.mpr some)
          have later := ih found
          rw [unlines] at later
          rw [unlines, List.intercalate_cons_cons, List.getLast?_append, later, same,
            Option.some_or]

theorem stripEnd_sublist (line : JsString) : (stripEnd line).Sublist line :=
  (List.rdropWhile_prefix _ _).sublist

theorem getLast?_stripEnd (line : JsString) :
    ∀ unit ∈ (stripEnd line).getLast?, isGitSpace unit = false := by
  intro unit last
  obtain ⟨some, same⟩ := List.mem_getLast?_eq_getLast last
  rw [same, Bool.eq_false_iff]
  exact List.rdropWhile_last_not isGitSpace line some

theorem cleaned_subset (text : JsString) :
    ∀ line ∈ cleaned text, ∃ original ∈ lines text, line = stripEnd original := by
  have squeezed : ∀ lines : List JsString, ∀ line ∈ squeeze lines, line ∈ lines := by
    intro lines
    induction lines with
    | nil => exact fun _ => id
    | cons first rest ih =>
        intro line member
        cases rest with
        | nil => exact member
        | cons second rest =>
            unfold squeeze at member
            split at member
            · exact List.mem_cons_of_mem _ (ih line member)
            · rcases List.mem_cons.mp member with rfl | later
              · exact List.mem_cons_self
              · exact List.mem_cons_of_mem _ (ih line later)
  intro line member
  have listed := squeezed _ line ((List.rdropWhile_prefix _ _).subset member)
  obtain ⟨original, source, same⟩ :=
    List.mem_map.mp ((List.dropWhile_suffix _).subset listed)
  exact ⟨original, source, same.symm⟩

theorem lineFeed_not_mem_cleaned (text : JsString) : ∀ line ∈ cleaned text, lineFeed ∉ line := by
  intro line member inside
  obtain ⟨original, source, rfl⟩ := cleaned_subset text line member
  exact lineFeed_not_mem_lines text original source ((stripEnd_sublist original).subset inside)

theorem stripspace_eq {text : JsString} (some : cleaned text ≠ []) :
    stripspace text = unlines (cleaned text) ++ [lineFeed] := by
  unfold stripspace
  generalize cleaned text = lines at some
  induction lines with
  | nil => exact absurd rfl some
  | cons first rest ih =>
      cases rest with
      | nil => rw [List.flatMap_singleton, unlines, List.intercalate_singleton]
      | cons second rest =>
          rw [List.flatMap_cons, ih nofun, unlines, unlines, List.intercalate_cons_cons,
            List.append_assoc, List.append_assoc, List.append_assoc]

/-- The lines of a stored message are the cleaned lines. -/
theorem lines_stored {text : JsString} (some : cleaned text ≠ []) :
    lines (unlines (cleaned text)) = cleaned text :=
  List.splitOn_intercalate _ (lineFeed_not_mem_cleaned text) some

/-- Trimming takes the white space before a text. -/
theorem trim_front {blank : JsString} (spaces : ∀ unit ∈ blank, isWhitespace unit = true)
    (text : JsString) : trim (blank ++ text) = trim text := by
  unfold trim
  rw [List.dropWhile_append_of_pos spaces]

/-- Trimming takes no more than the white space after a text that begins and ends with
other units. -/
theorem trim_append {text blank : JsString} (spaces : ∀ unit ∈ blank, isWhitespace unit = true)
    (some : text ≠ []) (first : ∀ unit ∈ text.head?, isWhitespace unit = false)
    (last : ∀ unit ∈ text.getLast?, isWhitespace unit = false) :
    trim (text ++ blank) = text := by
  obtain ⟨unit, rest, rfl⟩ := List.exists_cons_of_ne_nil some
  have front : (unit :: rest ++ blank).dropWhile isWhitespace = unit :: rest ++ blank := by
    rw [List.cons_append, List.dropWhile_cons_of_neg (by simpa using first unit rfl)]
  unfold trim
  rw [front, List.reverse_append, List.dropWhile_append_of_pos fun space member =>
    spaces space (List.mem_reverse.mp member)]
  have whole := trim_eq_self first last
  unfold trim at whole
  rw [List.dropWhile_cons_of_neg (by simpa using first unit rfl)] at whole
  exact whole

end JsString
