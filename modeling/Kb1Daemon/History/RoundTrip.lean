import Kb1Daemon.History.Message

/-! # Reading commit messages back

A commit's message shows names and paths as they are, and the reader of the log takes the
log apart at control characters and finds the trailers line by line.
-/

namespace Kb1Daemon

open JsString

/-- A key that the reader recognizes. -/
def IsKey (key : JsString) : Prop :=
  ∃ name, key = units "KB1-" ++ name ∧ name ≠ [] ∧ name.all isKeyUnit = true

/-- A trailer's line begins with its key and a colon. -/
theorem trailerStart_append {key : JsString} (isKey : IsKey key) (rest : JsString) :
    trailerStart (key ++ 58 :: rest) = some (key, rest.dropWhile isWhitespace) := by
  obtain ⟨name, rfl, some, all⟩ := isKey
  have all := List.all_eq_true.mp all
  have shape : (units "KB1-" ++ name ++ 58 :: rest).drop 4 = name ++ 58 :: rest := by
    rw [List.append_assoc]
    rfl
  have front : (units "KB1-" ++ name ++ 58 :: rest).take 4 = units "KB1-" := by
    rw [List.append_assoc]
    rfl
  have taken : (name ++ 58 :: rest).takeWhile isKeyUnit = name := by
    rw [List.takeWhile_append_of_pos all, List.takeWhile_cons_of_neg (by decide), List.append_nil]
  have left : (name ++ 58 :: rest).dropWhile isKeyUnit = 58 :: rest := by
    rw [List.dropWhile_append_of_pos all, List.dropWhile_cons_of_neg (by decide)]
  unfold trailerStart
  rw [shape, front, taken, left]
  exact if_pos ⟨rfl, some, rfl⟩

/-- Whatever begins like a trailer has a key and a colon. -/
theorem trailerStart_eq_some {line key value : JsString}
    (start : trailerStart line = some (key, value)) :
    IsKey key ∧ ∃ rest, line = key ++ 58 :: rest ∧ value = rest.dropWhile isWhitespace := by
  unfold trailerStart at start
  dsimp only at start
  split at start
  · rename_i facts
    obtain ⟨front, some, colon⟩ := facts
    obtain ⟨rfl, rfl⟩ := Prod.mk.inj (Option.some.inj start)
    refine ⟨⟨_, rfl, some, List.all_takeWhile⟩, ?_⟩
    obtain ⟨rest, after⟩ := List.head?_eq_some_iff.mp colon
    refine ⟨rest, ?_, by rw [after]; rfl⟩
    rw [List.append_assoc, ← after, List.takeWhile_append_dropWhile, ← front,
      List.take_append_drop]
  · cases start

/-- A line that continues a trailer's beginning begins like it. -/
theorem trailerStart_of_prefix {front line : JsString} (begins : front <+: line)
    (plain : trailerStart line = none) : trailerStart front = none := by
  obtain ⟨back, rfl⟩ := begins
  cases start : trailerStart front with
  | none => rfl
  | some trailer =>
      obtain ⟨isKey, rest, rfl, _⟩ := trailerStart_eq_some start
      rw [List.append_assoc, List.cons_append, trailerStart_append isKey] at plain
      cases plain

theorem trailerStart_stripEnd {line : JsString} (plain : trailerStart line = none) :
    trailerStart (stripEnd line) = none :=
  trailerStart_of_prefix (List.rdropWhile_prefix _ _) plain

theorem trailerLine_of_start {line : JsString} (plain : trailerStart line = none) :
    trailerLine line = none := by
  rw [trailerLine, plain]
  rfl

/-- The trailers found in a text's lines, as Git stores them. -/
def marks (text : JsString) : CommitValues := (nonblank text).filterMap trailerLine

theorem marks_append_lineFeed (front back : JsString) :
    marks (front ++ lineFeed :: back) = marks front ++ marks back := by
  unfold marks nonblank
  rw [lines_append_lineFeed, List.map_append, List.filter_append, List.filterMap_append]

theorem nonblank_unlines {texts : List JsString} (some : texts ≠ []) :
    nonblank (unlines texts) = texts.flatMap nonblank := by
  unfold nonblank
  rw [lines_unlines some, List.map_flatMap, List.filter_flatMap]

theorem marks_unlines {texts : List JsString} (some : texts ≠ []) :
    marks (unlines texts) = texts.flatMap marks := by
  unfold marks
  rw [nonblank_unlines some, List.filterMap_flatMap]

/-- Lines that do not begin like a trailer have none. -/
theorem marks_eq_nil {text : JsString} (plain : ∀ line ∈ lines text, trailerStart line = none) :
    marks text = [] := by
  refine List.filterMap_eq_nil_iff.mpr fun line member => ?_
  obtain ⟨original, source, rfl⟩ := List.mem_map.mp (List.mem_filter.mp member).1
  exact trailerLine_of_start (trailerStart_stripEnd (plain original source))

theorem nonblank_single {line : JsString} (single : lineFeed ∉ line) :
    nonblank line = if (stripEnd line).isEmpty then [] else [stripEnd line] := by
  unfold nonblank
  rw [lines_of_not_mem single, List.map_singleton, List.filter_singleton]
  by_cases blank : (stripEnd line).isEmpty = true
  · simp [blank]
  · simp [blank]

/-- What is stripped at the end of a line with a name is at the end of its value. -/
theorem stripEnd_colon (key rest : JsString) :
    stripEnd (key ++ 58 :: rest) = key ++ 58 :: stripEnd rest := by
  unfold stripEnd
  by_cases blank : ∀ unit ∈ rest, isGitSpace unit = true
  · rw [List.rdropWhile_eq_nil_iff.mpr blank]
    have shape : key ++ 58 :: rest = (key ++ [58]) ++ rest := by simp
    unfold List.rdropWhile
    rw [shape, List.reverse_append, List.dropWhile_append_of_pos fun unit member =>
      blank unit (List.mem_reverse.mp member), List.reverse_append]
    rw [List.reverse_singleton, List.singleton_append,
      List.dropWhile_cons_of_neg (by decide), List.reverse_cons, List.reverse_reverse]
  · have kept : rest.rdropWhile isGitSpace ≠ [] := fun nil =>
      blank (List.rdropWhile_eq_nil_iff.mp nil)
    unfold List.rdropWhile at kept ⊢
    have shape : key ++ 58 :: rest = (key ++ [58]) ++ rest := by simp
    rw [shape, List.reverse_append, List.dropWhile_append]
    rw [if_neg (by simpa using kept), List.reverse_append, List.reverse_reverse]
    simp

/-- The trailer of a line with a name: it has the name as its key, if it is legible. -/
theorem trailerLine_named {key : JsString} (isKey : IsKey key) (value : JsString) :
    trailerLine (stripEnd (namedLine key value)) =
      if ((stripEnd (32 :: value)).dropWhile isWhitespace).any isLineTerminator then none
      else some (key, (stripEnd (32 :: value)).dropWhile isWhitespace) := by
  have shape : namedLine key value = key ++ 58 :: 32 :: value := by
    rw [namedLine, List.append_assoc]
    rfl
  rw [shape, stripEnd_colon, trailerLine, trailerStart_append isKey]
  generalize (stripEnd (32 :: value)).dropWhile isWhitespace = shown
  rw [Option.filter_some]
  cases shown.any isLineTerminator <;> rfl

/-- The units that the reader strips or stops at do not stand at the ends of a value, or
in it. -/
structure Clean (value : JsString) : Prop where
  first : ∀ unit ∈ value.head?, isWhitespace unit = false
  last : ∀ unit ∈ value.getLast?, isWhitespace unit = false
  single : ∀ unit ∈ value, isLineTerminator unit = false

theorem isWhitespace_of_isGitSpace {unit : CodeUnit} (space : isGitSpace unit = true) :
    isWhitespace unit = true := by
  have member := of_decide_eq_true space
  simp only [List.mem_cons, List.not_mem_nil, or_false] at member
  rcases member with rfl | rfl | rfl | rfl <;> decide

theorem Clean.lineFeed {value : JsString} (clean : Clean value) : lineFeed ∉ value := by
  intro member
  have broken := clean.single _ member
  cases broken

theorem IsKey.lineFeed {key : JsString} (isKey : IsKey key) : lineFeed ∉ key := by
  obtain ⟨name, rfl, _, all⟩ := isKey
  rw [List.mem_append]
  rintro (front | back)
  · revert front
    decide
  · exact absurd (List.all_eq_true.mp all _ back) (by decide)

theorem lineFeed_namedLine {key value : JsString} (isKey : IsKey key)
    (single : lineFeed ∉ value) : lineFeed ∉ namedLine key value := by
  unfold namedLine
  rw [List.mem_append, List.mem_append]
  rintro ((inKey | inMark) | inValue)
  · exact isKey.lineFeed inKey
  · revert inMark
    decide
  · exact single inValue

/-- A clean value is what is left of a trailer's line after its colon. -/
theorem Clean.shown {value : JsString} (clean : Clean value) :
    (stripEnd (32 :: value)).dropWhile isWhitespace = value := by
  cases value with
  | nil => decide
  | cons unit rest =>
      have kept : stripEnd (32 :: unit :: rest) = 32 :: unit :: rest := by
        refine List.rdropWhile_eq_self_iff.mpr fun some space => ?_
        have last := clean.last ((32 :: unit :: rest).getLast some) (by
          rw [List.getLast_cons (List.cons_ne_nil unit rest)]
          exact List.getLast_mem_getLast? _)
        rw [isWhitespace_of_isGitSpace space] at last
        cases last
      rw [kept, List.dropWhile_cons_of_pos (by decide),
        List.dropWhile_cons_of_neg (by simpa using clean.first unit rfl)]

theorem nonblank_named {key value : JsString} (isKey : IsKey key) (single : lineFeed ∉ value) :
    nonblank (namedLine key value) = [stripEnd (namedLine key value)] := by
  rw [nonblank_single (lineFeed_namedLine isKey single), if_neg]
  have shape : namedLine key value = key ++ 58 :: 32 :: value := by
    rw [namedLine, List.append_assoc]
    rfl
  rw [shape, stripEnd_colon]
  simp

/-- A trailer with a clean value is found. -/
theorem marks_named {key value : JsString} (isKey : IsKey key) (clean : Clean value) :
    marks (namedLine key value) = [(key, value)] := by
  have single : value.any isLineTerminator = false := by
    rw [List.any_eq_false]
    intro unit member broken
    rw [clean.single unit member] at broken
    cases broken
  unfold marks
  rw [nonblank_named isKey clean.lineFeed, List.filterMap_cons, trailerLine_named isKey,
    clean.shown, single]
  rfl

/-- A trailer that is found has its line's key. -/
theorem key_of_mem_marks {key value : JsString} (isKey : IsKey key) (single : lineFeed ∉ value) :
    ∀ trailer ∈ marks (namedLine key value), trailer.1 = key := by
  intro trailer member
  unfold marks at member
  rw [nonblank_named isKey single] at member
  obtain ⟨line, listed, found⟩ := List.mem_filterMap.mp member
  rw [List.mem_singleton.mp listed, trailerLine_named isKey] at found
  split at found
  · cases found
  · exact (congrArg Prod.fst (Option.some.inj found)).symm

/-- A trailer with a clean value ends in a unit that is no white space. -/
theorem getLast_named {key value : JsString} (isKey : IsKey key) (clean : Clean value) :
    ∀ line ∈ nonblank (namedLine key value), ∀ unit ∈ line.getLast?,
      isWhitespace unit = false := by
  intro line member
  rw [nonblank_named isKey clean.lineFeed] at member
  rw [List.mem_singleton.mp member]
  have shape : namedLine key value = key ++ 58 :: 32 :: value := by
    rw [namedLine, List.append_assoc]
    rfl
  rw [shape, stripEnd_colon]
  cases value with
  | nil =>
      intro unit last
      have colon : unit = 58 := by
        rw [List.getLast?_append] at last
        exact (Option.some.inj last).symm
      rw [colon]
      decide
  | cons first rest =>
      intro unit last
      have kept : stripEnd (32 :: first :: rest) = 32 :: first :: rest := by
        refine List.rdropWhile_eq_self_iff.mpr fun some space => ?_
        have end? := clean.last ((32 :: first :: rest).getLast some) (by
          rw [List.getLast_cons (List.cons_ne_nil first rest)]
          exact List.getLast_mem_getLast? _)
        rw [isWhitespace_of_isGitSpace space] at end?
        cases end?
      rw [kept, List.getLast?_append] at last
      refine clean.last unit ?_
      simpa using last

namespace CommitValues

theorem get_append (front back : CommitValues) (key : JsString) :
    CommitValues.get (front ++ back) key =
      (CommitValues.get front key).or (CommitValues.get back key) := by
  unfold CommitValues.get
  rw [List.find?_append]
  cases front.find? fun entry => decide (entry.1 = key) <;> rfl

theorem get_eq_none {values : CommitValues} {key : JsString}
    (apart : ∀ entry ∈ values, entry.1 ≠ key) : values.get key = none := by
  unfold CommitValues.get
  rw [List.find?_eq_none.mpr]
  · rfl
  · intro entry member
    simpa using apart entry member

/-- With distinct keys, every value is the first one of its key. -/
theorem get_of_mem {values : CommitValues} {key value : JsString}
    (distinct : (values.map Prod.fst).Nodup) (member : (key, value) ∈ values) :
    values.get key = some value := by
  unfold CommitValues.get
  cases found : values.find? fun entry => decide (entry.1 = key) with
  | none => exact absurd (List.find?_eq_none.mp found _ member) (by simp)
  | some entry =>
      have same : entry.1 = key := by simpa using List.find?_some found
      have equal := List.inj_on_of_nodup_map distinct (List.mem_of_find?_eq_some found) member same
      rw [equal]
      rfl

end CommitValues

/-- The trailers of lines and the trailer lines among them agree, except for what a path
takes of the lines after it. -/
theorem trailersLoop_spec {fuel : Nat} {lines : List JsString} (fueled : lines.length ≤ fuel) :
    (trailersLoop fuel lines).map Prod.fst = (lines.filterMap trailerLine).map Prod.fst ∧
      ∀ key, key ≠ pathKey → key ≠ fromPathKey →
        (trailersLoop fuel lines).filter (fun entry => entry.1 = key) =
          (lines.filterMap trailerLine).filter fun entry => entry.1 = key := by
  induction fuel generalizing lines with
  | zero =>
      obtain rfl := List.length_eq_zero_iff.mp (Nat.le_zero.mp fueled)
      exact ⟨rfl, fun _ _ _ => rfl⟩
  | succ fuel ih =>
      cases lines with
      | nil => exact ⟨rfl, fun _ _ _ => rfl⟩
      | cons line lines =>
          have shorter : lines.length ≤ fuel := Nat.le_of_succ_le_succ fueled
          unfold trailersLoop
          split
          · rename_i found
            rw [List.filterMap_cons_none found]
            exact ih shorter
          · rename_i key value found
            rw [List.filterMap_cons_some found]
            split
            · rename_i isPath
              -- The lines that a path takes do not even begin like trailers.
              have skipped : (lines.dropWhile fun next => (trailerStart next).isNone).filterMap
                  trailerLine = lines.filterMap trailerLine := by
                have front : (lines.takeWhile fun next => (trailerStart next).isNone).filterMap
                    trailerLine = [] := by
                  refine List.filterMap_eq_nil_iff.mpr fun next member => ?_
                  have none : (trailerStart next).isNone = true :=
                    @List.mem_takeWhile_imp _ (fun next => (trailerStart next).isNone) _ _ member
                  exact trailerLine_of_start (Option.isNone_iff_eq_none.mp none)
                conv_rhs => rw [← @List.takeWhile_append_dropWhile _
                  (fun next => (trailerStart next).isNone) lines]
                rw [List.filterMap_append, front, List.nil_append]
              have rest := @ih (lines.dropWhile fun next => (trailerStart next).isNone)
                (Nat.le_trans (List.dropWhile_suffix _).length_le shorter)
              rw [skipped] at rest
              refine ⟨?_, ?_⟩
              · dsimp only
                rw [List.map_cons, List.map_cons, rest.1]
              · intro other notPath notFrom
                have apart : key ≠ other := by
                  rintro rfl
                  exact isPath.elim notPath notFrom
                have dropped : ∀ value (more : CommitValues),
                    ((key, value) :: more).filter (fun entry => entry.1 = other) =
                      more.filter fun entry => entry.1 = other :=
                  fun value more => List.filter_cons_of_neg (by simpa using apart)
                rw [dropped, dropped]
                exact rest.2 other notPath notFrom
            · have rest := ih shorter
              refine ⟨by rw [List.map_cons, List.map_cons, rest.1], ?_⟩
              intro other notPath notFrom
              rw [List.filter_cons, List.filter_cons, rest.2 other notPath notFrom]

/-- A unit that is neither a blank nor a mark of lines, fields and records. -/
theorem plain_of_isTokenUnit {unit : CodeUnit} (token : isTokenUnit unit = true) :
    isWhitespace unit = false ∧ isLineTerminator unit = false ∧ unit ≠ commitSeparator ∧
      unit ≠ fieldSeparator := by
  have bounds := Bool.and_eq_true_iff.mp token
  have least : 33 ≤ unit.toNat := UInt16.le_iff_toNat_le.mp (of_decide_eq_true bounds.1)
  have greatest : unit.toNat ≤ 126 := UInt16.le_iff_toNat_le.mp (of_decide_eq_true bounds.2)
  have all : ∀ value < 127, 33 ≤ value → isWhitespace (UInt16.ofNat value) = false ∧
      isLineTerminator (UInt16.ofNat value) = false ∧ UInt16.ofNat value ≠ commitSeparator ∧
      UInt16.ofNat value ≠ fieldSeparator := by decide
  rw [← @UInt16.ofNat_toNat unit]
  exact all _ (Nat.lt_succ_of_le greatest) least

theorem clean_token {text : JsString} (token : text.all isTokenUnit = true) : Clean text := by
  have plain : ∀ unit ∈ text, isWhitespace unit = false ∧ isLineTerminator unit = false :=
    fun unit member =>
      have facts := plain_of_isTokenUnit (List.all_eq_true.mp token unit member)
      ⟨facts.1, facts.2.1⟩
  exact ⟨fun unit first => (plain unit (List.mem_of_head? first)).1,
    fun unit last => (plain unit (List.mem_of_getLast? last)).1,
    fun unit member => (plain unit member).2⟩

theorem token_decimal (number : Nat) : (decimal number).all isTokenUnit = true := by
  refine List.all_eq_true.mpr fun unit member => ?_
  have bounds := Bool.and_eq_true_iff.mp (List.all_eq_true.mp (isDigit_decimal number) unit member)
  refine Bool.and_eq_true_iff.mpr ⟨decide_eq_true ?_, decide_eq_true ?_⟩
  · exact UInt16.le_trans (by decide) (of_decide_eq_true bounds.1)
  · exact UInt16.le_trans (of_decide_eq_true bounds.2) (by decide)

theorem token_padded (width number : Nat) : (padded width number).all isTokenUnit = true := by
  unfold padded
  rw [List.all_append, token_decimal, Bool.and_true, List.all_eq_true]
  intro unit member
  rw [(List.mem_replicate.mp member).2]
  decide

theorem token_toISOString (now : Nat) : (toISOString now).all isTokenUnit = true := by
  unfold toISOString
  dsimp only
  have marked : ∀ (mark : CodeUnit) (text : JsString), isTokenUnit mark = true →
      text.all isTokenUnit = true → (mark :: text).all isTokenUnit = true := by
    intro mark text token all
    rw [List.all_cons, token, all]
    rfl
  repeat rw [List.all_append]
  simp only [Bool.and_eq_true]
  refine ⟨⟨⟨⟨⟨⟨⟨?_, ?_⟩, ?_⟩, ?_⟩, ?_⟩, ?_⟩, ?_⟩, by decide⟩
  · split
    · exact token_padded _ _
    · exact marked _ _ (by decide) (token_padded _ _)
  all_goals exact marked _ _ (by decide) (token_padded _ _)

theorem toISOString_ne_nil (now : Nat) : toISOString now ≠ [] :=
  List.append_ne_nil_of_right_ne_nil _ (List.cons_ne_nil _ _)

/-- A line separator of Unicode, which is no control character. -/
def hasLineSeparator (text : JsString) : Bool :=
  text.any fun unit => unit = 0x2028 || unit = 0x2029

/-- A printed text with no line separator is a single line for every reader. -/
theorem isLineTerminator_of_written {text : JsString} {unit : CodeUnit}
    (written : Json.Written text unit) (plain : hasLineSeparator text = false) :
    isLineTerminator unit = false := by
  rw [isLineTerminator, decide_eq_false_iff_not]
  intro member
  have inText : ∀ separator : CodeUnit, separator = 0x2028 ∨ separator = 0x2029 →
      separator ∉ text := by
    intro separator isOne listed
    have absent := List.any_eq_false.mp plain separator listed
    rcases isOne with rfl | rfl <;> exact absent (by decide)
  simp only [List.mem_cons, List.not_mem_nil, or_false] at member
  rcases member with rfl | rfl | rfl | rfl
  · exact absurd written.1 (by decide)
  · exact absurd written.1 (by decide)
  · rcases written.2 with listed | ascii
    · exact inText _ (.inl rfl) listed
    · exact absurd ascii (by decide)
  · rcases written.2 with listed | ascii
    · exact inText _ (.inr rfl) listed
    · exact absurd ascii (by decide)

theorem clean_stringifyString {text : JsString} (plain : hasLineSeparator text = false) :
    Clean (Json.stringifyString text) where
  first := by
    intro unit first
    obtain rfl := Option.some.inj first
    decide
  last := by
    intro unit last
    rw [Json.stringifyString, List.getLast?_concat] at last
    obtain rfl := Option.some.inj last
    decide
  single := fun unit member =>
    isLineTerminator_of_written (Json.written_stringifyString text unit member) plain

theorem clean_stringifyRecord {members : List (JsString × JsString)}
    (plain : hasLineSeparator (members.flatMap fun member => member.1 ++ member.2) = false) :
    Clean (Json.stringifyRecord members) where
  first := by
    intro unit first
    obtain rfl := Option.some.inj first
    decide
  last := by
    intro unit last
    rw [Json.stringifyRecord, List.getLast?_concat] at last
    obtain rfl := Option.some.inj last
    decide
  single := fun unit member =>
    isLineTerminator_of_written (Json.written_stringifyRecord members unit member) plain

/-- A written text holds no control character. -/
theorem Written.ne {text : JsString} {unit control : CodeUnit} (written : Json.Written text unit)
    (small : control < 32) : unit ≠ control := by
  rintro rfl
  exact written.1 small

/-- A displayed path is a single line. -/
theorem lineFeed_commitPathDisplay (path : JsString) : lineFeed ∉ commitPathDisplay path := by
  unfold commitPathDisplay
  split
  · intro member
    exact Written.ne (Json.written_stringifyString path _ member) (by decide) rfl
  · rename_i single
    intro member
    exact single (List.any_eq_true.mpr ⟨_, member, by decide⟩)

namespace CommitEntry

/-- What a commit's message can be read back from: the units that separate records do not
stand in what it shows of the paths and contributors, no line separator of Unicode stands
in a path or contributor, and no line of a contributor's label begins like a trailer. -/
structure Legible (entry : CommitEntry) : Prop where
  path : commitSeparator ∉ commitPathDisplay entry.path ∧ hasLineSeparator entry.path = false
  fromPath : ∀ fromPath ∈ entry.fromPath,
    commitSeparator ∉ commitPathDisplay fromPath ∧ hasLineSeparator fromPath = false
  contributors : ∀ actor ∈ entry.contributors, commitSeparator ∉ actorLabel actor ∧
    hasLineSeparator ((actorMembers actor).flatMap fun member => member.1 ++ member.2) = false
  labels : ∀ actor ∈ entry.contributors, ∀ line ∈ lines (units "- " ++ actorLabel actor),
    trailerStart line = none

/-- A record of the log tells the same as the entry its commit was made for. -/
structure Recovered (entry : CommitEntry) (now : Option Nat) (requestedPath : JsString)
    (record : HistoryLogRecord) : Prop where
  path : commitPathValue (commitValues record.body) pathJsonKey pathKey = .text entry.path
  fromPath : commitPathValue (commitValues record.body) fromPathJsonKey fromPathKey =
    match entry.fromPath with
    | none => .undefined
    | some fromPath => .text fromPath
  values : entryFromCommitValues requestedPath record.commitId record.committedAt
      (commitValues record.body) =
    some {
      id := entry.id
      path := requestedPath
      operation := entry.operation
      actor := actorForContributors entry.contributors
      integrationId := (actorForContributors entry.contributors).client
      contributors := if entry.contributors.isEmpty then none else some entry.contributors
      pending := false
      commitId := some record.commitId
      createdAt := toISOString entry.bucketStart
      updatedAt := entry.bucketEnd now
      size := entry.size
      contentHash := entry.contentHash }
  contentHashFormat : (commitValues record.body).get contentHashFormatKey =
    entry.contentHashFormat.map Subtype.val

/-- The log of the commit that an entry is committed with has one record, which tells the
same as the entry. -/
def RoundTrips (entry : CommitEntry) (now : Option Nat) : Prop :=
  ∀ (requestedPath : JsString) (commitId committedAt : Token), commitId.1 ≠ [] →
    committedAt.1 ≠ [] →
      ∃ record, readHistoryLog (logText ⟨commitId, committedAt,
          storedMessage (entry.commitMessage now)⟩) = [record] ∧
        record.commitId = commitId.1 ∧ record.committedAt = committedAt.1 ∧
        entry.Recovered now requestedPath record

variable {entry : CommitEntry} {now : Option Nat}

/-- A line whose first four units are others does not begin like a trailer. -/
theorem marks_of_take {line : JsString} (single : lineFeed ∉ line)
    (other : line.take 4 ≠ units "KB1-") : marks line = [] := by
  refine marks_eq_nil fun text member => ?_
  rw [lines_of_not_mem single] at member
  rw [List.mem_singleton.mp member]
  exact if_neg fun facts => other facts.1

/-- The lines for a reader have no trailers. -/
theorem marks_displayLines (legible : entry.Legible) (now : Option Nat) :
    (entry.displayLines now).flatMap marks = [] := by
  have named : ∀ (name value : JsString), 4 ≤ name.length ∧ name.take 4 ≠ units "KB1-" ∧
      lineFeed ∉ name → lineFeed ∉ value → marks (namedLine name value) = [] := by
    rintro name value ⟨long, other, inName⟩ inValue
    refine marks_of_take ?_ ?_
    · unfold namedLine
      rw [List.mem_append, List.mem_append]
      rintro ((front | mark) | back)
      · exact inName front
      · revert mark
        decide
      · exact inValue back
    · rw [namedLine, List.append_assoc, List.take_append_of_le_length long]
      exact other
  have stamp : ∀ now, lineFeed ∉ toISOString now := fun now =>
    (clean_token (token_toISOString now)).lineFeed
  refine List.flatMap_eq_nil_iff.mpr fun line member => ?_
  unfold displayLines at member
  simp only [List.mem_append] at member
  rcases member with (((path | fromPath) | fixed) | label) | last
  · rw [List.mem_singleton.mp path]
    exact named _ _ (by decide) (lineFeed_commitPathDisplay _)
  · cases shown : entry.fromPath.map commitPathDisplay with
    | none =>
        rw [shown] at fromPath
        cases fromPath
    | some display =>
        rw [shown] at fromPath
        dsimp only at fromPath
        obtain ⟨source, _, rfl⟩ := Option.map_eq_some_iff.mp shown
        split at fromPath
        · cases fromPath
        · rw [List.mem_singleton.mp fromPath]
          exact named _ _ (by decide) (lineFeed_commitPathDisplay _)
  · simp only [List.mem_cons, List.not_mem_nil, or_false] at fixed
    rcases fixed with rfl | rfl | rfl
    · refine named _ _ (by decide) ?_
      rw [List.mem_append, List.mem_append]
      rintro ((start | mark) | stop)
      · exact stamp _ start
      · revert mark
        decide
      · exact stamp _ stop
    · decide
    · decide
  · obtain ⟨actor, listed, rfl⟩ := List.mem_map.mp label
    exact marks_eq_nil (legible.labels actor listed)
  · rw [List.mem_singleton.mp last]
    decide

theorem isKey_of {key : JsString} (recognized : key.take 4 = units "KB1-" ∧ key.drop 4 ≠ [] ∧
    (key.drop 4).all isKeyUnit = true) : IsKey key :=
  ⟨key.drop 4, by rw [← recognized.1, List.take_append_drop], recognized.2.1, recognized.2.2⟩

/-- The trailers of a path: its JSON text, and perhaps the path itself. -/
theorem marks_pathTrailers {jsonKey legacyKey path : JsString} (json : IsKey jsonKey)
    (legacy : IsKey legacyKey) (plain : hasLineSeparator path = false) :
    ∃ raw, (pathTrailers jsonKey legacyKey path).flatMap marks =
        (jsonKey, Json.stringifyString path) :: raw ∧
      ∀ trailer ∈ raw, trailer.1 = legacyKey := by
  unfold pathTrailers
  rw [List.flatMap_cons, marks_named json (clean_stringifyString plain)]
  refine ⟨_, rfl, fun trailer member => ?_⟩
  obtain ⟨line, listed, found⟩ := List.mem_flatMap.mp member
  split at listed
  · cases listed
  · rename_i unbroken
    rw [List.mem_singleton.mp listed] at found
    refine key_of_mem_marks legacy (fun inside => ?_) trailer found
    exact unbroken (List.any_eq_true.mpr ⟨_, inside, by decide⟩)

/-- What the trailers tell beside the paths and the contributors. -/
def headValues (entry : CommitEntry) (now : Option Nat) : CommitValues :=
  [(operationKey, entry.operation.text), (historyIdKey, entry.id.1),
    (bucketStartKey, toISOString entry.bucketStart), (bucketEndKey, entry.bucketEnd now),
    (sizeKey, decimal entry.size), (contentHashKey, entry.contentHash.1)] ++
    (entry.contentHashFormat.map fun format => (contentHashFormatKey, format.1)).toList

/-- What the trailers tell of the contributors. -/
def contributorValues (entry : CommitEntry) : CommitValues :=
  entry.contributors.map fun actor => (contributorKey, Json.stringifyRecord (actorMembers actor))

theorem token_bucketEnd (entry : CommitEntry) (now : Option Nat) :
    (entry.bucketEnd now).all isTokenUnit = true :=
  token_toISOString _

theorem clean_operation (operation : FileHistoryOperation) : Clean operation.text :=
  clean_token (by cases operation <;> decide)

theorem clean_contributor (legible : entry.Legible) {actor : VaultActor}
    (listed : actor ∈ entry.contributors) : Clean (Json.stringifyRecord (actorMembers actor)) :=
  clean_stringifyRecord (legible.contributors actor listed).2

/-- Every value trailer has a recognized key and a clean value. -/
theorem clean_valueTrailers (legible : entry.Legible) (now : Option Nat) :
    ∀ line ∈ entry.valueTrailers now, ∃ key value, line = namedLine key value ∧ IsKey key ∧
      Clean value := by
  intro line member
  unfold valueTrailers at member
  rcases List.mem_append.mp member with front | contributor
  · rcases List.mem_append.mp front with fixed | formatted
    · simp only [List.mem_cons, List.not_mem_nil, or_false] at fixed
      rcases fixed with rfl | rfl | rfl | rfl | rfl | rfl
      · exact ⟨_, _, rfl, isKey_of (by decide), clean_operation _⟩
      · exact ⟨_, _, rfl, isKey_of (by decide), clean_token entry.id.2⟩
      · exact ⟨_, _, rfl, isKey_of (by decide), clean_token (token_toISOString _)⟩
      · exact ⟨_, _, rfl, isKey_of (by decide), clean_token (entry.token_bucketEnd now)⟩
      · exact ⟨_, _, rfl, isKey_of (by decide), clean_token (token_decimal _)⟩
      · exact ⟨_, _, rfl, isKey_of (by decide), clean_token entry.contentHash.2⟩
    · obtain ⟨format, _, rfl⟩ := Option.map_eq_some_iff.mp (Option.mem_toList.mp formatted)
      exact ⟨_, _, rfl, isKey_of (by decide), clean_token format.2⟩
  · obtain ⟨actor, listed, rfl⟩ := List.mem_map.mp contributor
    exact ⟨_, _, rfl, isKey_of (by decide), clean_contributor legible listed⟩

/-- The value trailers are found as they are. -/
theorem marks_valueTrailers (legible : entry.Legible) (now : Option Nat) :
    (entry.valueTrailers now).flatMap marks = entry.headValues now ++ entry.contributorValues := by
  unfold valueTrailers headValues contributorValues
  rw [List.flatMap_append, List.flatMap_append]
  congr 1
  · congr 1
    · simp only [List.flatMap_cons, List.flatMap_nil, List.append_nil]
      rw [marks_named (isKey_of (by decide)) (clean_operation _),
        marks_named (isKey_of (by decide)) (clean_token entry.id.2),
        marks_named (isKey_of (by decide)) (clean_token (token_toISOString _)),
        marks_named (isKey_of (by decide)) (clean_token (entry.token_bucketEnd now)),
        marks_named (isKey_of (by decide)) (clean_token (token_decimal _)),
        marks_named (isKey_of (by decide)) (clean_token entry.contentHash.2)]
      rfl
    · cases entry.contentHashFormat with
      | none => rfl
      | some format =>
          rw [Option.map_some, Option.toList_some, List.flatMap_singleton,
            marks_named (isKey_of (by decide)) (clean_token format.2)]
          rfl
  · rw [List.flatMap_map, List.flatMap_congr fun actor listed =>
      marks_named (isKey_of (by decide)) (clean_contributor legible listed)]
    exact List.flatMap_pure_eq_map _ _

/-- The text that Git is given. -/
def text (entry : CommitEntry) (now : Option Nat) : JsString :=
  (entry.commitMessage now).1 ++ units "\n\n" ++ (entry.commitMessage now).2 ++ units "\n"

theorem lines_ne_nil : entry.displayLines now ++ entry.trailerLines now ≠ [] := by
  unfold displayLines
  simp

theorem text_eq : entry.text now = (entry.commitMessage now).1 ++ lineFeed :: ([] ++ lineFeed ::
    (unlines (entry.displayLines now ++ entry.trailerLines now) ++ lineFeed :: [])) := by
  unfold text
  rw [List.append_assoc, List.append_assoc]
  rfl

/-- The lines of a message that are not blank. -/
theorem nonblank_text : nonblank (entry.text now) = nonblank (entry.commitMessage now).1 ++
    (entry.displayLines now ++ entry.trailerLines now).flatMap nonblank := by
  have split : ∀ front back, nonblank (front ++ lineFeed :: back) =
      nonblank front ++ nonblank back := by
    intro front back
    unfold nonblank
    rw [lines_append_lineFeed, List.map_append, List.filter_append]
  have empty : nonblank [] = [] := by decide
  rw [text_eq, split, split, split, nonblank_unlines lines_ne_nil, empty, List.append_nil,
    List.nil_append]

/-- The trailers that are found in a message. -/
theorem marks_text (legible : entry.Legible) :
    marks (entry.text now) = (entry.trailerLines now).flatMap marks := by
  have subject : marks (entry.commitMessage now).1 = [] := by
    refine marks_of_take ?_ ?_
    · unfold commitMessage
      dsimp only
      rw [List.mem_append, List.mem_append, List.mem_append]
      rintro (((title | operation) | blank) | path)
      · revert title
        decide
      · exact (clean_operation _).lineFeed operation
      · revert blank
        decide
      · exact lineFeed_commitPathDisplay _ path
    · intro same
      exact absurd (show units "KB-1" = units "KB1-" from same) (by decide)
  have empty : marks [] = [] := by decide
  rw [text_eq, marks_append_lineFeed, marks_append_lineFeed, marks_append_lineFeed,
    marks_unlines lines_ne_nil, List.flatMap_append, marks_displayLines legible, subject, empty,
    List.append_nil, List.nil_append, List.nil_append, List.nil_append]

theorem valueTrailers_nonblank (entry : CommitEntry) (now : Option Nat) :
    (entry.valueTrailers now).flatMap nonblank ≠ [] := by
  obtain ⟨rest, shape⟩ : ∃ rest, entry.valueTrailers now =
      namedLine operationKey entry.operation.text :: rest := ⟨_, rfl⟩
  rw [shape, List.flatMap_cons,
    nonblank_named (isKey_of (by decide)) (clean_operation _).lineFeed]
  exact List.cons_ne_nil _ _

/-- The value trailers end in units that are no white space. -/
theorem getLast_valueTrailers (legible : entry.Legible) (now : Option Nat) :
    ∀ line ∈ (entry.valueTrailers now).flatMap nonblank, ∀ unit ∈ line.getLast?,
      isWhitespace unit = false := by
  intro line member
  obtain ⟨trailer, listed, inside⟩ := List.mem_flatMap.mp member
  obtain ⟨key, value, rfl, isKey, clean⟩ := clean_valueTrailers legible now trailer listed
  exact getLast_named isKey clean line inside

/-- The last line of a message is a trailer, which ends in a unit that is no white space. -/
theorem getLast?_cleaned (legible : entry.Legible) :
    ∃ last, (cleaned (entry.text now)).getLast? = some last ∧
      ∀ unit ∈ last.getLast?, isWhitespace unit = false := by
  obtain ⟨last, found⟩ := Option.isSome_iff_exists.mp
    (List.getLast?_isSome.mpr (valueTrailers_nonblank entry now))
  refine ⟨last, ?_, getLast_valueTrailers legible now last (List.mem_of_getLast? found)⟩
  rw [JsString.getLast?_cleaned, nonblank_text, trailerLines, ← List.append_assoc,
    List.flatMap_append, ← List.append_assoc, List.getLast?_append, found, Option.some_or]

theorem cleaned_ne_nil (legible : entry.Legible) : cleaned (entry.text now) ≠ [] := by
  obtain ⟨last, found, _⟩ := @getLast?_cleaned entry now legible
  intro nil
  rw [nil] at found
  cases found

theorem separator_token {text : JsString} (token : text.all isTokenUnit = true) :
    commitSeparator ∉ text :=
  fun member => (plain_of_isTokenUnit (List.all_eq_true.mp token _ member)).2.2.1 rfl

theorem separator_namedLine {name value : JsString} (inName : commitSeparator ∉ name)
    (inValue : commitSeparator ∉ value) : commitSeparator ∉ namedLine name value := by
  unfold namedLine
  rw [List.mem_append, List.mem_append]
  rintro ((front | mark) | back)
  · exact inName front
  · revert mark
    decide
  · exact inValue back

theorem separator_pathTrailers {jsonKey legacyKey path : JsString}
    (json : commitSeparator ∉ jsonKey) (legacy : commitSeparator ∉ legacyKey)
    (shown : commitSeparator ∉ commitPathDisplay path) :
    ∀ line ∈ pathTrailers jsonKey legacyKey path, commitSeparator ∉ line := by
  intro line member
  unfold pathTrailers at member
  rcases List.mem_cons.mp member with rfl | raw
  · exact separator_namedLine json fun inside =>
      Written.ne (Json.written_stringifyString path _ inside) (by decide) rfl
  · split at raw
    · cases raw
    · rename_i unbroken
      rw [List.mem_singleton.mp raw]
      rw [commitPathDisplay, if_neg unbroken] at shown
      exact separator_namedLine legacy shown

/-- No line of the message holds the mark between records. -/
theorem separator_lines (legible : entry.Legible) :
    ∀ line ∈ entry.displayLines now ++ entry.trailerLines now, commitSeparator ∉ line := by
  intro line member
  rcases List.mem_append.mp member with shown | trailer
  · unfold displayLines at shown
    simp only [List.mem_append] at shown
    rcases shown with (((path | fromPath) | fixed) | label) | last
    · rw [List.mem_singleton.mp path]
      exact separator_namedLine (by decide) legible.path.1
    · cases display : entry.fromPath.map commitPathDisplay with
      | none =>
          rw [display] at fromPath
          cases fromPath
      | some shown =>
          rw [display] at fromPath
          dsimp only at fromPath
          obtain ⟨source, stored, rfl⟩ := Option.map_eq_some_iff.mp display
          split at fromPath
          · cases fromPath
          · rw [List.mem_singleton.mp fromPath]
            exact separator_namedLine (by decide) (legible.fromPath source stored).1
    · simp only [List.mem_cons, List.not_mem_nil, or_false] at fixed
      rcases fixed with rfl | rfl | rfl
      · refine separator_namedLine (by decide) ?_
        rw [List.mem_append, List.mem_append]
        rintro ((start | mark) | stop)
        · exact separator_token (token_toISOString _) start
        · revert mark
          decide
        · exact separator_token (entry.token_bucketEnd now) stop
      · decide
      · decide
    · obtain ⟨actor, listed, rfl⟩ := List.mem_map.mp label
      rw [List.mem_append]
      rintro (mark | inside)
      · revert mark
        decide
      · exact (legible.contributors actor listed).1 inside
    · rw [List.mem_singleton.mp last]
      decide
  · unfold trailerLines at trailer
    rcases List.mem_append.mp trailer with paths | value
    · rcases List.mem_append.mp paths with path | fromPath
      · exact separator_pathTrailers (by decide) (by decide) legible.path.1 line path
      · cases source : entry.fromPath with
        | none =>
            rw [source] at fromPath
            cases fromPath
        | some place =>
            rw [source] at fromPath
            exact separator_pathTrailers (by decide) (by decide) (legible.fromPath place source).1
              line fromPath
    · unfold valueTrailers at value
      rcases List.mem_append.mp value with front | contributor
      · rcases List.mem_append.mp front with fixed | formatted
        · simp only [List.mem_cons, List.not_mem_nil, or_false] at fixed
          rcases fixed with rfl | rfl | rfl | rfl | rfl | rfl
          · exact separator_namedLine (by decide) (by cases entry.operation <;> decide)
          · exact separator_namedLine (by decide) (separator_token entry.id.2)
          · exact separator_namedLine (by decide) (separator_token (token_toISOString _))
          · exact separator_namedLine (by decide) (separator_token (entry.token_bucketEnd now))
          · exact separator_namedLine (by decide) (separator_token (token_decimal _))
          · exact separator_namedLine (by decide) (separator_token entry.contentHash.2)
        · obtain ⟨format, _, rfl⟩ := Option.map_eq_some_iff.mp (Option.mem_toList.mp formatted)
          exact separator_namedLine (by decide) (separator_token format.2)
      · obtain ⟨actor, _, rfl⟩ := List.mem_map.mp contributor
        exact separator_namedLine (by decide) fun inside =>
          Written.ne (Json.written_stringifyRecord _ _ inside) (by decide) rfl

theorem separator_subject (legible : entry.Legible) :
    commitSeparator ∉ (entry.commitMessage now).1 := by
  unfold commitMessage
  dsimp only
  rw [List.mem_append, List.mem_append, List.mem_append]
  rintro (((title | operation) | blank) | path)
  · revert title
    decide
  · revert operation
    cases entry.operation <;> decide
  · revert blank
    decide
  · exact legible.path.1 path

/-- The stored message has no mark between records. -/
theorem separator_stored (legible : entry.Legible) :
    commitSeparator ∉ unlines (cleaned (entry.text now)) := by
  have whole : commitSeparator ∉ entry.text now := by
    rw [text_eq, List.mem_append, List.mem_cons, List.nil_append, List.mem_cons, List.mem_append,
      List.mem_singleton]
    rintro (subject | mark | mark | body | mark)
    · exact separator_subject legible subject
    · cases mark
    · cases mark
    · rcases mem_unlines body with mark | ⟨line, listed, inside⟩
      · cases mark
      · exact separator_lines legible line listed inside
    · cases mark
  intro member
  rcases mem_unlines member with mark | ⟨line, listed, inside⟩
  · cases mark
  · obtain ⟨original, source, rfl⟩ := cleaned_subset _ line listed
    exact whole (subset_of_mem_lines _ original source _
      ((stripEnd_sublist original).subset inside))

end CommitEntry

/-- The records of a log are those of its first piece and those of the rest. -/
theorem readHistoryLog_append {piece : JsString} (separate : commitSeparator ∉ piece)
    (rest : JsString) :
    readHistoryLog (piece ++ commitSeparator :: rest) =
      (readLogPiece piece).toList ++ readHistoryLog rest := by
  unfold readHistoryLog
  rw [List.splitOn_append_cons_self_of_not_mem separate, List.filterMap_cons]
  cases readLogPiece piece <;> rfl

/-- A commit's id and date are free of the units that take the log apart. -/
theorem separators_token (token : Token) :
    commitSeparator ∉ token.1 ∧ fieldSeparator ∉ token.1 :=
  ⟨fun member => (plain_of_isTokenUnit (List.all_eq_true.mp token.2 _ member)).2.2.1 rfl,
    fun member => (plain_of_isTokenUnit (List.all_eq_true.mp token.2 _ member)).2.2.2 rfl⟩

/-- A record whose piece of the log can be taken apart again. -/
structure Logged (record : HistoryLogRecord) : Prop where
  commitId : record.commitId ≠ [] ∧ record.commitId.all isTokenUnit = true
  committedAt : record.committedAt ≠ [] ∧ record.committedAt.all isTokenUnit = true
  apart : commitSeparator ∉ record.body
  nonempty : record.body ≠ []
  ends : ∀ unit ∈ record.body.getLast?, isWhitespace unit = false

/-- A record's piece of the log, without the line feeds around it. -/
def logPiece (record : HistoryLogRecord) : JsString :=
  record.commitId ++ fieldSeparator :: (record.committedAt ++ fieldSeparator :: record.body)

theorem separator_logPiece {record : HistoryLogRecord} (logged : Logged record) :
    commitSeparator ∉ logPiece record := by
  simp only [logPiece, List.mem_append, List.mem_cons]
  rintro (inId | mark | inDate | mark | inBody)
  · exact (separators_token ⟨_, logged.commitId.2⟩).1 inId
  · cases mark
  · exact (separators_token ⟨_, logged.committedAt.2⟩).1 inDate
  · cases mark
  · exact logged.apart inBody

/-- A piece of the log is read as the record it was made of; the line feeds around it are
trimmed. -/
theorem readLogPiece_logPiece {record : HistoryLogRecord} (logged : Logged record)
    {front : JsString} (blank : ∀ unit ∈ front, isWhitespace unit = true) :
    readLogPiece (front ++ (logPiece record ++ [lineFeed])) = some record := by
  have trimmed : trim (front ++ (logPiece record ++ [lineFeed])) = logPiece record := by
    rw [trim_front blank]
    apply trim_append
    · intro unit member
      rw [List.mem_singleton.mp member]
      decide
    · simp [logPiece]
    · intro unit first
      obtain ⟨head, rest, shape⟩ := List.exists_cons_of_ne_nil logged.commitId.1
      simp only [logPiece, shape, List.cons_append, List.head?_cons] at first
      obtain rfl := Option.some.inj first
      refine (plain_of_isTokenUnit (List.all_eq_true.mp logged.commitId.2 _ ?_)).1
      rw [shape]
      exact List.mem_cons_self
    · intro unit last
      obtain ⟨final, found⟩ :=
        Option.isSome_iff_exists.mp (List.getLast?_isSome.mpr logged.nonempty)
      refine logged.ends unit ?_
      have same : (logPiece record).getLast? = record.body.getLast? := by
        simp only [logPiece, List.getLast?_append, List.getLast?_cons, found]
        rfl
      exact same ▸ last
  have fields : (logPiece record).splitOn fieldSeparator =
      record.commitId :: record.committedAt :: record.body.splitOn fieldSeparator := by
    unfold logPiece
    rw [List.splitOn_append_cons_self_of_not_mem (separators_token ⟨_, logged.commitId.2⟩).2,
      List.splitOn_append_cons_self_of_not_mem (separators_token ⟨_, logged.committedAt.2⟩).2]
  unfold readLogPiece
  dsimp only
  rw [trimmed, fields, if_neg (by simp [logPiece])]
  dsimp only
  rw [if_neg (by simp [logged.commitId.1, logged.committedAt.1]), List.intercalate_splitOn]

/-- What `git log` shows of a record whose body Git stores with a line feed at its end. -/
theorem logText_stored (record : HistoryLogRecord) :
    logText { record with body := record.body ++ [lineFeed] } =
      (logPiece record ++ [lineFeed]) ++ commitSeparator :: [lineFeed] := by
  simp [logText, logPiece]

/-- A log is taken apart into the records it was made of. -/
theorem readHistoryLog_logText {records : List HistoryLogRecord}
    (logged : ∀ record ∈ records, Logged record) :
    readHistoryLog (records.flatMap fun record =>
      logText { record with body := record.body ++ [lineFeed] }) = records := by
  have general : ∀ front : JsString, (∀ unit ∈ front, isWhitespace unit = true) →
      commitSeparator ∉ front →
        readHistoryLog (front ++ records.flatMap fun record =>
          logText { record with body := record.body ++ [lineFeed] }) = records := by
    induction records with
    | nil =>
        intro front blank plain
        have empty : trim front = [] := by
          have shape := trim_front blank []
          rw [List.append_nil] at shape
          exact shape
        unfold readHistoryLog
        rw [List.flatMap_nil, List.append_nil, List.splitOn_eq_singleton plain]
        refine List.filterMap_cons_none ?_
        unfold readLogPiece
        dsimp only
        rw [empty]
        rfl
    | cons record records ih =>
        intro front blank plain
        have whole : front ++ (record :: records).flatMap (fun record =>
            logText { record with body := record.body ++ [lineFeed] }) =
            (front ++ (logPiece record ++ [lineFeed])) ++ commitSeparator ::
              ([lineFeed] ++ records.flatMap fun record =>
                logText { record with body := record.body ++ [lineFeed] }) := by
          rw [List.flatMap_cons, logText_stored]
          simp only [List.append_assoc, List.cons_append]
        have separate : commitSeparator ∉ front ++ (logPiece record ++ [lineFeed]) := by
          rw [List.mem_append, List.mem_append]
          rintro (inFront | inPiece | mark)
          · exact plain inFront
          · exact separator_logPiece (logged record List.mem_cons_self) inPiece
          · exact absurd mark (by decide)
        have feed : ∀ unit ∈ [lineFeed], isWhitespace unit = true := by
          intro unit member
          rw [List.mem_singleton.mp member]
          decide
        rw [whole, readHistoryLog_append separate,
          readLogPiece_logPiece (logged record List.mem_cons_self) blank,
          ih (fun other member => logged other (List.mem_cons_of_mem _ member)) [lineFeed]
            feed (by decide)]
        rfl
  exact general [] nofun nofun

namespace CommitEntry

variable {entry : CommitEntry} {now : Option Nat}

/-- The record of an entry's commit, with the cleaned message as its body. -/
def shownRecord (entry : CommitEntry) (now : Option Nat) (commitId committedAt : JsString) :
    HistoryLogRecord :=
  ⟨commitId, committedAt, unlines (cleaned (entry.text now))⟩

/-- Git stores the cleaned message with a line feed at its end. -/
theorem storedMessage_eq (legible : entry.Legible) :
    storedMessage (entry.commitMessage now) = unlines (cleaned (entry.text now)) ++ [lineFeed] :=
  stripspace_eq (cleaned_ne_nil legible)

theorem logged_shownRecord (legible : entry.Legible) {commitId committedAt : Token}
    (identified : commitId.1 ≠ []) (dated : committedAt.1 ≠ []) :
    Logged (entry.shownRecord now commitId committedAt) := by
  obtain ⟨last, found, ends⟩ := @getLast?_cleaned entry now legible
  have nonblank : last ≠ [] := by
    have listed : last ∈ nonblank (entry.text now) := by
      rw [JsString.getLast?_cleaned] at found
      exact List.mem_of_getLast? found
    have kept := (List.mem_filter.mp listed).2
    rintro rfl
    cases kept
  have same := getLast?_unlines found nonblank
  have apart := @separator_stored entry now legible
  unfold shownRecord
  generalize unlines (cleaned (entry.text now)) = body at same apart
  rw [← same] at ends
  refine ⟨⟨identified, commitId.2⟩, ⟨dated, committedAt.2⟩, apart, ?_, ends⟩
  rintro rfl
  exact nonblank (List.getLast?_eq_none_iff.mp same.symm)

/-- The log of an entry's commit has one record, with the cleaned message as its body. -/
theorem readHistoryLog_stored (legible : entry.Legible) {commitId committedAt : Token}
    (identified : commitId.1 ≠ []) (dated : committedAt.1 ≠ []) :
    readHistoryLog (logText ⟨commitId, committedAt, storedMessage (entry.commitMessage now)⟩) =
      [⟨commitId, committedAt, unlines (cleaned (entry.text now))⟩] := by
  have logged := @logged_shownRecord entry now legible commitId committedAt identified dated
  rw [storedMessage_eq legible]
  unfold shownRecord at logged
  generalize unlines (cleaned (entry.text now)) = body at logged
  have read := @readHistoryLog_logText [⟨commitId, committedAt, body⟩] (by
    intro record member
    rw [List.mem_singleton.mp member]
    exact logged)
  rw [List.flatMap_singleton] at read
  exact read

/-- The trailers of the stored message, up to what a path takes of the lines after it. -/
theorem commitValues_stored (legible : entry.Legible) :
    (commitValues (unlines (cleaned (entry.text now)))).map Prod.fst =
        ((entry.trailerLines now).flatMap marks).map Prod.fst ∧
      ∀ key, key ≠ pathKey → key ≠ fromPathKey →
        (commitValues (unlines (cleaned (entry.text now)))).filter (fun value => value.1 = key) =
          ((entry.trailerLines now).flatMap marks).filter fun value => value.1 = key := by
  have kept : (cleaned (entry.text now)).map dropCarriageReturn = cleaned (entry.text now) := by
    refine (List.map_congr_left fun line member => ?_).trans (List.map_id _)
    obtain ⟨original, _, rfl⟩ := cleaned_subset _ line member
    unfold dropCarriageReturn
    rw [if_neg]
    · rfl
    · intro last
      have space := getLast?_stripEnd original _ last
      cases space
  have found : (cleaned (entry.text now)).filterMap trailerLine =
      (entry.trailerLines now).flatMap marks := by
    rw [← marks_text legible, marks, ← cleaned_nonblank, List.filterMap_filter]
    apply List.filterMap_congr
    intro line _
    cases line with
    | nil => rfl
    | cons unit line => rfl
  unfold commitValues
  rw [lines_stored (cleaned_ne_nil legible), kept, ← found]
  exact trailersLoop_spec (Nat.le_refl _)

end CommitEntry

/-- The record of an actor is read back as the actor. -/
theorem parseActorJson_stringify (actor : VaultActor) :
    parseActorJson (Json.stringifyRecord (actorMembers actor)) = some actor := by
  have kinds : ∀ kind : ActorKind, actorKindOf kind.text = some kind := by
    intro kind
    cases kind <;> decide
  have members : actorMembers actor ≠ [] := List.cons_ne_nil _ _
  unfold parseActorJson
  rw [Json.parse_stringifyRecord members]
  obtain ⟨kind, id, name, client⟩ := actor
  have read : stringMember ((actorMembers ⟨kind, id, name, client⟩).map fun member =>
        (member.1, .string member.2)) (units "kind") = some kind.text ∧
      stringMember ((actorMembers ⟨kind, id, name, client⟩).map fun member =>
        (member.1, .string member.2)) (units "id") = id ∧
      stringMember ((actorMembers ⟨kind, id, name, client⟩).map fun member =>
        (member.1, .string member.2)) (units "name") = name ∧
      stringMember ((actorMembers ⟨kind, id, name, client⟩).map fun member =>
        (member.1, .string member.2)) (units "client") = client := by
    cases id <;> cases name <;> cases client <;> exact ⟨rfl, rfl, rfl, rfl⟩
  obtain ⟨readKind, readId, readName, readClient⟩ := read
  dsimp only
  rw [normalizeActor, readKind, readId, readName, readClient, Option.bind_some, kinds]
  rfl

namespace CommitValues

theorem get_eq_head? (values : CommitValues) (key : JsString) :
    values.get key = ((values.filter fun entry => entry.1 = key).head?).map Prod.snd := by
  rw [List.head?_filter]
  rfl

/-- Values with the same keys miss the same keys. -/
theorem get_eq_none_of_keys {values others : CommitValues}
    (same : values.map Prod.fst = others.map Prod.fst) {key : JsString}
    (apart : ∀ entry ∈ others, entry.1 ≠ key) : values.get key = none := by
  refine get_eq_none fun entry member equal => ?_
  have listed : key ∈ others.map Prod.fst := by
    rw [← same, ← equal]
    exact List.mem_map_of_mem member
  obtain ⟨other, present, equal⟩ := List.mem_map.mp listed
  exact apart other present equal

end CommitValues

namespace CommitEntry

variable {entry : CommitEntry} {now : Option Nat}

/-- The trailers of the place a file comes from have keys of their own. -/
theorem marks_fromPath (legible : entry.Legible) :
    (∀ trailer ∈ ((entry.fromPath.map (pathTrailers fromPathJsonKey fromPathKey)).getD []).flatMap
        marks, trailer.1 = fromPathJsonKey ∨ trailer.1 = fromPathKey) ∧
      ∀ fromPath ∈ entry.fromPath, CommitValues.get
        (((entry.fromPath.map (pathTrailers fromPathJsonKey fromPathKey)).getD []).flatMap marks)
        fromPathJsonKey = some (Json.stringifyString fromPath) := by
  cases source : entry.fromPath with
  | none => exact ⟨nofun, nofun⟩
  | some place =>
      obtain ⟨raw, shape, keys⟩ := @marks_pathTrailers fromPathJsonKey fromPathKey place
        (isKey_of (by decide)) (isKey_of (by decide)) (legible.fromPath place source).2
      rw [Option.map_some, Option.getD_some, shape]
      constructor
      · intro trailer member
        rcases List.mem_cons.mp member with rfl | later
        · exact .inl rfl
        · exact .inr (keys trailer later)
      · intro fromPath same
        obtain rfl := Option.some.inj same
        rw [← List.singleton_append, CommitValues.get_append]
        rfl

/-- What the trailers tell, in their order: of the path, of the place a file comes from, and
the rest. -/
theorem marks_trailerLines (legible : entry.Legible) (now : Option Nat) :
    ∃ raw, (entry.trailerLines now).flatMap marks =
        (pathJsonKey, Json.stringifyString entry.path) :: raw ++
          ((entry.fromPath.map (pathTrailers fromPathJsonKey fromPathKey)).getD []).flatMap marks ++
          (entry.headValues now ++ entry.contributorValues) ∧
      ∀ trailer ∈ raw, trailer.1 = pathKey := by
  obtain ⟨raw, shape, keys⟩ := @marks_pathTrailers pathJsonKey pathKey entry.path
    (isKey_of (by decide)) (isKey_of (by decide)) legible.path.2
  refine ⟨raw, ?_, keys⟩
  rw [trailerLines, List.flatMap_append, List.flatMap_append, shape,
    marks_valueTrailers legible now]

theorem key_headValues : ∀ trailer ∈ entry.headValues now,
    trailer.1 ∈ [operationKey, historyIdKey, bucketStartKey, bucketEndKey, sizeKey,
      contentHashKey, contentHashFormatKey] := by
  intro trailer member
  rcases List.mem_append.mp member with fixed | formatted
  · simp only [List.mem_cons, List.not_mem_nil, or_false] at fixed
    rcases fixed with rfl | rfl | rfl | rfl | rfl | rfl <;> simp
  · obtain ⟨format, _, rfl⟩ := Option.map_eq_some_iff.mp (Option.mem_toList.mp formatted)
    simp

theorem keys_headValues : (entry.headValues now).map Prod.fst =
    [operationKey, historyIdKey, bucketStartKey, bucketEndKey, sizeKey, contentHashKey] ++
      (entry.contentHashFormat.map fun _ => contentHashFormatKey).toList := by
  unfold headValues
  cases entry.contentHashFormat <;> rfl

theorem nodup_headValues : ((entry.headValues now).map Prod.fst).Nodup := by
  rw [keys_headValues]
  cases entry.contentHashFormat with
  | none =>
      rw [Option.map_none]
      decide
  | some format =>
      rw [Option.map_some]
      decide

/-- Another key than the paths' is looked up among the values. -/
theorem get_stored (legible : entry.Legible) {key : JsString}
    (apart : key ∉ [pathJsonKey, pathKey, fromPathJsonKey, fromPathKey]) :
    (commitValues (unlines (cleaned (entry.text now)))).get key =
      CommitValues.get (entry.headValues now ++ entry.contributorValues) key := by
  simp only [List.mem_cons, List.not_mem_nil, or_false, not_or] at apart
  obtain ⟨notJson, notPath, notFromJson, notFrom⟩ := apart
  obtain ⟨raw, shape, keys⟩ := marks_trailerLines legible now
  have from? := (marks_fromPath legible).1
  rw [CommitValues.get_eq_head?, (commitValues_stored legible).2 key notPath notFrom,
    ← CommitValues.get_eq_head?, shape, CommitValues.get_append, CommitValues.get_append,
    CommitValues.get_eq_none, CommitValues.get_eq_none, Option.none_or, Option.none_or]
  · intro trailer member
    rcases from? trailer member with same | same <;> rw [same]
    · exact Ne.symm notFromJson
    · exact Ne.symm notFrom
  · intro trailer member
    rcases List.mem_cons.mp member with rfl | later
    · exact Ne.symm notJson
    · rw [keys trailer later]
      exact Ne.symm notPath

/-- A value is looked up as it was written. -/
theorem get_headValue (legible : entry.Legible) {key value : JsString}
    (apart : key ∉ [pathJsonKey, pathKey, fromPathJsonKey, fromPathKey])
    (member : (key, value) ∈ entry.headValues now) :
    (commitValues (unlines (cleaned (entry.text now)))).get key = some value := by
  rw [get_stored legible apart, CommitValues.get_append,
    CommitValues.get_of_mem nodup_headValues member, Option.some_or]

theorem getAll_contributors (legible : entry.Legible) :
    (commitValues (unlines (cleaned (entry.text now)))).getAll contributorKey =
      entry.contributors.map fun actor => Json.stringifyRecord (actorMembers actor) := by
  have none : ∀ {values : CommitValues}, (∀ trailer ∈ values, trailer.1 ≠ contributorKey) →
      values.filter (fun trailer => trailer.1 = contributorKey) = [] := by
    intro values apart
    refine List.filter_eq_nil_iff.mpr fun trailer member => ?_
    simpa using apart trailer member
  have all : entry.contributorValues.filter (fun trailer => trailer.1 = contributorKey) =
      entry.contributorValues := by
    refine List.filter_eq_self.mpr fun trailer member => ?_
    obtain ⟨actor, _, rfl⟩ := List.mem_map.mp member
    exact decide_eq_true rfl
  obtain ⟨raw, shape, keys⟩ := marks_trailerLines legible now
  unfold CommitValues.getAll
  rw [(commitValues_stored legible).2 contributorKey (by decide) (by decide), shape,
    List.filter_append, List.filter_append, List.filter_append, none, none, none, all,
    List.nil_append, List.nil_append, List.nil_append, contributorValues, List.map_map]
  · rfl
  · intro trailer member same
    have listed := key_headValues trailer member
    rw [same] at listed
    revert listed
    decide
  · intro trailer member same
    rcases (marks_fromPath legible).1 trailer member with key | key
    · rw [key] at same
      revert same
      decide
    · rw [key] at same
      revert same
      decide
  · intro trailer member same
    rcases List.mem_cons.mp member with rfl | later
    · have equal : pathJsonKey = contributorKey := same
      revert equal
      decide
    · rw [keys trailer later] at same
      revert same
      decide

theorem path_stored (legible : entry.Legible) :
    commitPathValue (commitValues (unlines (cleaned (entry.text now)))) pathJsonKey pathKey =
      .text entry.path := by
  obtain ⟨raw, shape, keys⟩ := marks_trailerLines legible now
  have found : (commitValues (unlines (cleaned (entry.text now)))).get pathJsonKey =
      some (Json.stringifyString entry.path) := by
    rw [CommitValues.get_eq_head?,
      (commitValues_stored legible).2 pathJsonKey (by decide) (by decide), shape]
    rfl
  unfold commitPathValue
  rw [found]
  dsimp only
  rw [Json.parse_stringifyString]

theorem fromPath_stored (legible : entry.Legible) :
    commitPathValue (commitValues (unlines (cleaned (entry.text now)))) fromPathJsonKey
        fromPathKey =
      match entry.fromPath with
      | none => .undefined
      | some fromPath => .text fromPath := by
  obtain ⟨raw, shape, keys⟩ := marks_trailerLines legible now
  have first : ∀ key, key ≠ pathJsonKey → key ≠ pathKey →
      ∀ trailer ∈ (pathJsonKey, Json.stringifyString entry.path) :: raw, trailer.1 ≠ key := by
    intro key notJson notPath trailer member
    rcases List.mem_cons.mp member with rfl | later
    · exact Ne.symm notJson
    · rw [keys trailer later]
      exact Ne.symm notPath
  have last : ∀ key, key = fromPathJsonKey ∨ key = fromPathKey →
      ∀ trailer ∈ entry.headValues now ++ entry.contributorValues, trailer.1 ≠ key := by
    intro key isFrom trailer member same
    rcases List.mem_append.mp member with value | contributor
    · have listed := key_headValues trailer value
      rw [same] at listed
      rcases isFrom with rfl | rfl <;> revert listed <;> decide
    · obtain ⟨actor, _, rfl⟩ := List.mem_map.mp contributor
      have equal : contributorKey = key := same
      rcases isFrom with rfl | rfl <;> revert equal <;> decide
  unfold commitPathValue
  cases source : entry.fromPath with
  | none =>
      rw [source, Option.map_none, Option.getD_none, List.flatMap_nil, List.append_nil] at shape
      have missing : ∀ key, key = fromPathJsonKey ∨ key = fromPathKey →
          (commitValues (unlines (cleaned (entry.text now)))).get key = none := by
        intro key isFrom
        refine CommitValues.get_eq_none_of_keys (commitValues_stored legible).1 ?_
        rw [shape]
        intro trailer member
        rcases List.mem_append.mp member with path | rest
        · rcases isFrom with rfl | rfl
          · exact first _ (by decide) (by decide) trailer path
          · exact first _ (by decide) (by decide) trailer path
        · exact last key isFrom trailer rest
      rw [missing _ (.inl rfl), missing _ (.inr rfl)]
  | some place =>
      have found : (commitValues (unlines (cleaned (entry.text now)))).get fromPathJsonKey =
          some (Json.stringifyString place) := by
        rw [CommitValues.get_eq_head?,
          (commitValues_stored legible).2 fromPathJsonKey (by decide) (by decide),
          ← CommitValues.get_eq_head?, shape, CommitValues.get_append, CommitValues.get_append,
          (marks_fromPath legible).2 place source,
          CommitValues.get_eq_none (first _ (by decide) (by decide)), Option.none_or,
          Option.some_or]
      rw [found]
      dsimp only
      rw [Json.parse_stringifyString]

/-- The version that values tell of. -/
theorem entryFromCommitValues_eq {values : CommitValues} {operation : FileHistoryOperation}
    {id createdAt updatedAt contentHash : JsString} {size : Nat} {contributors : List VaultActor}
    (requestedPath commitId committedAt : JsString)
    (operated : values.get operationKey = some operation.text)
    (identified : values.get historyIdKey = some id)
    (created : values.get bucketStartKey = some createdAt)
    (updated : values.get bucketEndKey = some updatedAt)
    (sized : values.get sizeKey = some (decimal size))
    (hashed : values.get contentHashKey = some contentHash)
    (credited : (values.getAll contributorKey).filterMap parseActorJson = contributors) :
    entryFromCommitValues requestedPath commitId committedAt values =
      some {
        id := id
        path := requestedPath
        operation := operation
        actor := actorForContributors contributors
        integrationId := (actorForContributors contributors).client
        contributors := if contributors.isEmpty then none else some contributors
        pending := false
        commitId := some commitId
        createdAt := createdAt
        updatedAt := updatedAt
        size := size
        contentHash := contentHash } := by
  have known : fileHistoryOperation ((values.get operationKey).getD (units "update")) =
      some operation := by
    rw [operated, Option.getD_some]
    cases operation <;> decide
  have measured : (values.get sizeKey).bind numberValue = some (size : ℚ) := by
    rw [sized, Option.bind_some, numberValue_decimal]
  unfold entryFromCommitValues
  rw [known, identified, created, updated, measured, hashed, credited]
  rfl

/-- The values of the stored message are those of the entry. -/
theorem values_stored (legible : entry.Legible) (requestedPath commitId committedAt : JsString) :
    entryFromCommitValues requestedPath commitId committedAt
        (commitValues (unlines (cleaned (entry.text now)))) =
      some {
        id := entry.id
        path := requestedPath
        operation := entry.operation
        actor := actorForContributors entry.contributors
        integrationId := (actorForContributors entry.contributors).client
        contributors := if entry.contributors.isEmpty then none else some entry.contributors
        pending := false
        commitId := some commitId
        createdAt := toISOString entry.bucketStart
        updatedAt := entry.bucketEnd now
        size := entry.size
        contentHash := entry.contentHash } := by
  have head : ∀ {key value : JsString}, (key, value) ∈ entry.headValues now →
      key ∉ [pathJsonKey, pathKey, fromPathJsonKey, fromPathKey] →
      (commitValues (unlines (cleaned (entry.text now)))).get key = some value :=
    fun member apart => get_headValue legible apart member
  have contributors : ((commitValues (unlines (cleaned (entry.text now)))).getAll
      contributorKey).filterMap parseActorJson = entry.contributors := by
    rw [getAll_contributors legible, List.filterMap_map]
    refine (List.filterMap_congr fun actor _ => ?_).trans List.filterMap_some
    exact parseActorJson_stringify actor
  apply entryFromCommitValues_eq requestedPath commitId committedAt
  · exact head (by simp [headValues]) (by decide)
  · exact head (by simp [headValues]) (by decide)
  · exact head (by simp [headValues]) (by decide)
  · exact head (by simp [headValues]) (by decide)
  · exact head (by simp [headValues]) (by decide)
  · exact head (by simp [headValues]) (by decide)
  · exact contributors

theorem format_stored (legible : entry.Legible) :
    (commitValues (unlines (cleaned (entry.text now)))).get contentHashFormatKey =
      entry.contentHashFormat.map Subtype.val := by
  cases format : entry.contentHashFormat with
  | none =>
      rw [get_stored legible (by decide)]
      refine CommitValues.get_eq_none fun trailer member same => ?_
      rcases List.mem_append.mp member with value | contributor
      · have listed : contentHashFormatKey ∈ (entry.headValues now).map Prod.fst :=
          same ▸ List.mem_map_of_mem value
        rw [keys_headValues, format, Option.map_none] at listed
        revert listed
        decide
      · obtain ⟨actor, _, rfl⟩ := List.mem_map.mp contributor
        have equal : contributorKey = contentHashFormatKey := same
        revert equal
        decide
  | some token =>
      refine get_headValue legible (by decide) ?_
      rw [headValues, format]
      simp

theorem recovered_stored (legible : entry.Legible) (requestedPath commitId committedAt : JsString)
    {body : JsString} (stored : unlines (cleaned (entry.text now)) = body) :
    entry.Recovered now requestedPath ⟨commitId, committedAt, body⟩ := by
  have path := @path_stored entry now legible
  have fromPath := @fromPath_stored entry now legible
  have values := @values_stored entry now legible requestedPath commitId committedAt
  have format := @format_stored entry now legible
  rw [stored] at path fromPath values format
  exact ⟨path, fromPath, values, format⟩

end CommitEntry

/-- **Legible entries are read back.** The log of the commit of a legible entry has one
record, which tells the same as the entry. -/
theorem commit_message_round_trip {entry : CommitEntry} {now : Option Nat}
    (legible : entry.Legible) : entry.RoundTrips now := by
  unfold CommitEntry.RoundTrips
  intro requestedPath commitId committedAt identified dated
  have read := @CommitEntry.readHistoryLog_stored entry now legible commitId committedAt
    identified dated
  generalize stored : unlines (cleaned (entry.text now)) = body at read
  exact ⟨⟨commitId.1, committedAt.1, body⟩, read, rfl, rfl,
    CommitEntry.recovered_stored legible requestedPath commitId.1 committedAt.1 stored⟩

/-- An update of a note by a user whose name has a second line that reads like a trailer. -/
def renamingEntry : CommitEntry where
  id := ⟨units "pending-1", by decide +kernel⟩
  path := units "a.md"
  fromPath := none
  operation := .update
  bucketStart := 0
  updatedAt := 5
  size := 3
  contentHash := ⟨units "9a0364b9", by decide +kernel⟩
  contentHashFormat := some ⟨units "git-blob-v1", by decide +kernel⟩
  contributors := [⟨.user, none, some (units "Ann\nKB1-Operation: create"), none⟩]

/-- The update of a note is read back as its creation. -/
theorem operation_read_from_label :
    validateVaultPath renamingEntry.path .file = true ∧ renamingEntry.fromPath = none ∧
      ¬ renamingEntry.RoundTrips none := by
  refine ⟨by decide +kernel, rfl, fun trips => ?_⟩
  have operations : (readHistoryLog (logText ⟨units "c", units "d",
      storedMessage (renamingEntry.commitMessage none)⟩)).map (fun record =>
        (entryFromCommitValues [] record.commitId record.committedAt
          (commitValues record.body)).map FileHistoryEntry.operation) = [some .create] := by
    decide +kernel
  obtain ⟨record, read, _, _, recovered⟩ := trips [] ⟨units "c", by decide +kernel⟩
    ⟨units "d", by decide +kernel⟩ (by decide) (by decide)
  have values := recovered.values
  generalize readHistoryLog (logText ⟨units "c", units "d",
    storedMessage (renamingEntry.commitMessage none)⟩) = records at operations read
  rw [read, List.map_singleton, values] at operations
  cases operations

/-- The move of a note with blanks and wildcards in its names, by two contributors. -/
def movingEntry : CommitEntry where
  id := ⟨units "pending-7", by decide +kernel⟩
  path := units "plans/q*[1] \n.md"
  fromPath := some (units ":old: notes.md")
  operation := .move
  bucketStart := 1700000000000
  updatedAt := 1700000000123
  size := 12
  contentHash := ⟨units "9a0364b9", by decide +kernel⟩
  contentHashFormat := some ⟨units "git-blob-v1", by decide +kernel⟩
  contributors := [⟨.user, some (units "u1"), some (units "Ann \"A\"\nB"), none⟩,
    ⟨.mcpClient, none, none, some (units "bot")⟩]

theorem commit_message_round_trip_move : movingEntry.RoundTrips (some 1700000000200) := by
  refine commit_message_round_trip ⟨by decide +kernel, ?_, ?_, ?_⟩
  · intro fromPath source
    obtain rfl := Option.some.inj source
    decide +kernel
  · decide +kernel
  · decide +kernel

end Kb1Daemon
