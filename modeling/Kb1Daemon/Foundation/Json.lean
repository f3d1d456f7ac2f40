import Kb1Daemon.Foundation.Numeral

/-! # JSON text

The text of strings and of records of strings, and the parser of JSON values. Parsing
undoes the writing (`Json.parse_stringifyString`, `Json.parse_stringifyRecord`), and a
written text has no line feed and no other control character; the line separators of
Unicode stay as they are.
-/

/-- A JSON value; a number is its text. -/
inductive Json where
  | null
  | bool (value : Bool)
  | number (text : JsString)
  | string (value : JsString)
  | array (items : List Json)
  | object (members : List (JsString × Json))

namespace Json

open Kb1Daemon (units)
open JsString (isDigit)

/-- The quotation mark. -/
def quote : CodeUnit := 34

/-- The backslash that begins an escape sequence. -/
def reverseSolidus : CodeUnit := 92

/-- The `u` of an escape sequence with four digits. -/
def letterU : CodeUnit := 117

def isHighSurrogate (unit : CodeUnit) : Bool := 0xD800 ≤ unit && unit ≤ 0xDBFF
def isLowSurrogate (unit : CodeUnit) : Bool := 0xDC00 ≤ unit && unit ≤ 0xDFFF

/-- The escape sequences of two units: the symbol and what it stands for. -/
def simpleEscapes : List (CodeUnit × CodeUnit) :=
  [(34, 34), (92, 92), (47, 47), (98, 8), (102, 12), (110, 10), (114, 13), (116, 9)]

/-- The digit of a value below sixteen. -/
def hexDigit (value : Nat) : CodeUnit :=
  if value < 10 then UInt16.ofNat (48 + value) else UInt16.ofNat (87 + value)

/-- The value of a hexadecimal digit. -/
def hexValue (digit : CodeUnit) : Option Nat :=
  if 48 ≤ digit && digit ≤ 57 then some (digit.toNat - 48)
  else if 97 ≤ digit && digit ≤ 102 then some (digit.toNat - 87)
  else if 65 ≤ digit && digit ≤ 70 then some (digit.toNat - 55)
  else none

/-- The four digits of a code unit. -/
def unicodeEscape (unit : CodeUnit) : JsString :=
  [reverseSolidus, letterU, hexDigit (unit.toNat / 4096), hexDigit (unit.toNat / 256 % 16),
    hexDigit (unit.toNat / 16 % 16), hexDigit (unit.toNat % 16)]

/-- A unit that is no surrogate, as it stands in a written string. -/
def escapeUnit (unit : CodeUnit) : JsString :=
  if unit = 34 then [reverseSolidus, 34]
  else if unit = 92 then [reverseSolidus, 92]
  else if unit = 8 then [reverseSolidus, 98]
  else if unit = 12 then [reverseSolidus, 102]
  else if unit = 10 then [reverseSolidus, 110]
  else if unit = 13 then [reverseSolidus, 114]
  else if unit = 9 then [reverseSolidus, 116]
  else if unit < 32 then unicodeEscape unit
  else [unit]

/-- The units of a written string. A surrogate of a pair stays as it is; `paired` says
that the unit before is the first one of a pair. -/
def escape (paired : Bool) : JsString → JsString
  | [] => []
  | unit :: rest =>
      let pairs := isHighSurrogate unit && rest.head?.any isLowSurrogate
      (if pairs || (paired && isLowSurrogate unit) then [unit]
        else if isHighSurrogate unit || isLowSurrogate unit then unicodeEscape unit
        else escapeUnit unit) ++ escape pairs rest

/-- `JSON.stringify` of a string. -/
def stringifyString (value : JsString) : JsString := quote :: escape false value ++ [quote]

/-- A member of a written record. -/
def stringifyMember (member : JsString × JsString) : JsString :=
  stringifyString member.1 ++ 58 :: stringifyString member.2

/-- `JSON.stringify` of a record of strings. -/
def stringifyRecord (members : List (JsString × JsString)) : JsString :=
  123 :: List.intercalate [44] (members.map stringifyMember) ++ [125]

/-- Skip white space. -/
def skip (text : JsString) : JsString :=
  text.dropWhile (· ∈ ([9, 10, 13, 32] : List CodeUnit))

/-- The text after white space and a mark. -/
def afterMark (mark : CodeUnit) (text : JsString) : Option JsString :=
  if (skip text).head? = some mark then some ((skip text).drop 1) else none

/-- The unit that four digits stand for. -/
def hexUnit (a b c d : CodeUnit) : Option CodeUnit := do
  return UInt16.ofNat ((← hexValue a) * 4096 + (← hexValue b) * 256 + (← hexValue c) * 16 +
    (← hexValue d))

/-- The unit of an escape sequence after its backslash, and the rest of the text. -/
def escapeSequence : JsString → Option (CodeUnit × JsString)
  | [] => none
  | symbol :: rest =>
      if symbol = letterU then
        match rest with
        | a :: b :: c :: d :: rest => (hexUnit a b c d).map fun unit => (unit, rest)
        | _ => none
      else
        (simpleEscapes.find? fun entry => entry.1 = symbol).map fun entry => (entry.2, rest)

/-- The string after its opening quotation mark, and the rest of the text. -/
def parseString : Nat → JsString → Option (JsString × JsString)
  | 0, _ => none
  | _ + 1, [] => none
  | fuel + 1, unit :: rest =>
      if unit = quote then some ([], rest)
      else if unit = reverseSolidus then
        (escapeSequence rest).bind fun escaped =>
          (parseString fuel escaped.2).map fun body => (escaped.1 :: body.1, body.2)
      else if unit < 32 then none
      else (parseString fuel rest).map fun body => (unit :: body.1, body.2)

/-- A text of at least one digit, and the rest. -/
def digits (text : JsString) : Option (JsString × JsString) :=
  let taken := text.takeWhile isDigit
  if taken.isEmpty then none else some (taken, text.dropWhile isDigit)

/-- An optional part of a number: none if the text does not begin with its mark. -/
def optionalPart (marks : List CodeUnit) (signs : List CodeUnit) (text : JsString) :
    Option (JsString × JsString) :=
  match text with
  | mark :: rest =>
      if mark ∈ marks then
        match rest with
        | sign :: after =>
            if sign ∈ signs then
              (digits after).map fun part => (mark :: sign :: part.1, part.2)
            else (digits rest).map fun part => (mark :: part.1, part.2)
        | [] => none
      else some ([], text)
  | [] => some ([], [])

/-- A number and the rest of the text. -/
def parseNumber (text : JsString) : Option (JsString × JsString) := do
  let sign := text.take (if text.head? = some 45 then 1 else 0)
  let integer ← digits (text.drop sign.length)
  if integer.1.head? = some 48 ∧ integer.1.length ≠ 1 then none else
    let fraction ← optionalPart [46] [] integer.2
    let exponent ← optionalPart [69, 101] [43, 45] fraction.2
    return (sign ++ integer.1 ++ fraction.1 ++ exponent.1, exponent.2)

/-- A word of the grammar and the rest of the text. -/
def literal (text word : JsString) (value : Json) : Option (Json × JsString) :=
  if word.isPrefixOf text then some (value, text.drop word.length) else none

mutual

/-- A value and the rest of the text; the fuel bounds the nesting and the lengths. -/
def parseValue : Nat → JsString → Option (Json × JsString)
  | 0, _ => none
  | _ + 1, [] => none
  | fuel + 1, unit :: rest =>
      if unit = quote then
        (parseString (rest.length + 1) rest).map fun body => (.string body.1, body.2)
      else if unit = 91 then
        if (skip rest).head? = some 93 then some (.array [], (skip rest).drop 1)
        else (parseItems fuel rest).map fun found => (.array found.1, found.2)
      else if unit = 123 then
        if (skip rest).head? = some 125 then some (.object [], (skip rest).drop 1)
        else (parseMembers fuel rest).map fun found => (.object found.1, found.2)
      else
        (literal (unit :: rest) (units "null") .null).or
          ((literal (unit :: rest) (units "true") (.bool true)).or
            ((literal (unit :: rest) (units "false") (.bool false)).or
              ((parseNumber (unit :: rest)).map fun found => (.number found.1, found.2))))

/-- The items of an array that has some. -/
def parseItems : Nat → JsString → Option (List Json × JsString)
  | 0, _ => none
  | fuel + 1, text => do
      let first ← parseValue fuel (skip text)
      match skip first.2 with
      | mark :: rest =>
          if mark = 44 then
            (parseItems fuel rest).map fun more => (first.1 :: more.1, more.2)
          else if mark = 93 then some ([first.1], rest)
          else none
      | [] => none

/-- The members of a record that has some. -/
def parseMembers : Nat → JsString → Option (List (JsString × Json) × JsString)
  | 0, _ => none
  | fuel + 1, text => do
      let opened ← afterMark quote text
      let key ← parseString (opened.length + 1) opened
      let named ← afterMark 58 key.2
      let first ← parseValue fuel (skip named)
      match skip first.2 with
      | mark :: rest =>
          if mark = 44 then
            (parseMembers fuel rest).map fun more => ((key.1, first.1) :: more.1, more.2)
          else if mark = 125 then some ([(key.1, first.1)], rest)
          else none
      | [] => none

end

/-- `JSON.parse`. -/
def parse (text : JsString) : Option Json := do
  let found ← parseValue (text.length + 1) (skip text)
  if skip found.2 = [] then some found.1 else none

/-- The value of a record under a key; of two members with one key the later counts. -/
def get (members : List (JsString × Json)) (key : JsString) : Option Json :=
  (members.reverse.find? fun member => member.1 = key).map Prod.snd

/-- A hexadecimal digit has its value. -/
theorem hexValue_hexDigit {value : Nat} (small : value < 16) :
    hexValue (hexDigit value) = some value := by
  revert value
  decide

theorem escapeSequence_digits (a b c d : CodeUnit) (rest : JsString) :
    escapeSequence (letterU :: a :: b :: c :: d :: rest) =
      (hexUnit a b c d).map fun unit => (unit, rest) := by
  rw [escapeSequence, if_pos rfl]

/-- The four digits of a unit stand for it. -/
theorem escapeSequence_unicodeEscape (unit : CodeUnit) (rest : JsString) :
    escapeSequence ((unicodeEscape unit).drop 1 ++ rest) = some (unit, rest) := by
  have bound := unit.toNat_lt
  have whole : unit.toNat / 4096 * 4096 + unit.toNat / 256 % 16 * 256 +
      unit.toNat / 16 % 16 * 16 + unit.toNat % 16 = unit.toNat := by omega
  have read : hexUnit (hexDigit (unit.toNat / 4096)) (hexDigit (unit.toNat / 256 % 16))
      (hexDigit (unit.toNat / 16 % 16)) (hexDigit (unit.toNat % 16)) = some unit := by
    unfold hexUnit
    rw [hexValue_hexDigit (by omega), hexValue_hexDigit (by omega), hexValue_hexDigit (by omega),
      hexValue_hexDigit (by omega)]
    dsimp only [Option.pure_def, Option.bind_eq_bind, Option.bind_some]
    rw [whole, UInt16.ofNat_toNat]
  exact (escapeSequence_digits _ _ _ _ _).trans (congrArg (Option.map _) read)

section ParseString

variable {fuel : Nat} {unit : CodeUnit} {tail : JsString}

theorem parseString_unit (plain : unit ≠ quote) (unescaped : unit ≠ reverseSolidus)
    (printed : ¬ unit < 32) :
    parseString (fuel + 1) (unit :: tail) =
      (parseString fuel tail).map fun body => (unit :: body.1, body.2) := by
  rw [parseString, if_neg plain, if_neg unescaped, if_neg printed]

theorem parseString_escaped {escaped : JsString}
    (read : escapeSequence (escaped ++ tail) = some (unit, tail)) :
    parseString (fuel + 1) (reverseSolidus :: escaped ++ tail) =
      (parseString fuel tail).map fun body => (unit :: body.1, body.2) := by
  rw [List.cons_append, parseString, if_neg (by decide), if_pos rfl, read]
  rfl

theorem parseString_unicodeEscape :
    parseString (fuel + 1) (unicodeEscape unit ++ tail) =
      (parseString fuel tail).map fun body => (unit :: body.1, body.2) :=
  parseString_escaped (escapeSequence_unicodeEscape unit tail)

theorem parseString_escapeUnit :
    parseString (fuel + 1) (escapeUnit unit ++ tail) =
      (parseString fuel tail).map fun body => (unit :: body.1, body.2) := by
  unfold escapeUnit
  split_ifs with quoted solidus backspace formFeed lineFeed carriageReturn tab control
  · subst quoted
    exact parseString_escaped rfl
  · subst solidus
    exact parseString_escaped rfl
  · subst backspace
    exact parseString_escaped rfl
  · subst formFeed
    exact parseString_escaped rfl
  · subst lineFeed
    exact parseString_escaped rfl
  · subst carriageReturn
    exact parseString_escaped rfl
  · subst tab
    exact parseString_escaped rfl
  · exact parseString_unicodeEscape
  · exact parseString_unit quoted solidus control

end ParseString

/-- A surrogate is a printed unit without an escape sequence. -/
theorem surrogate_plain {unit : CodeUnit}
    (surrogate : isHighSurrogate unit = true ∨ isLowSurrogate unit = true) :
    unit ≠ quote ∧ unit ≠ reverseSolidus ∧ ¬ unit < 32 := by
  have least : (0xD800 : CodeUnit) ≤ unit := by
    rcases surrogate with high | low
    · exact of_decide_eq_true (Bool.and_eq_true_iff.mp high).1
    · exact UInt16.le_trans (by decide) (of_decide_eq_true (Bool.and_eq_true_iff.mp low).1)
  rw [UInt16.le_iff_toNat_le] at least
  refine ⟨?_, ?_, ?_⟩
  · rintro rfl
    exact absurd least (by decide)
  · rintro rfl
    exact absurd least (by decide)
  · intro small
    rw [UInt16.lt_iff_toNat_lt] at small
    exact absurd (Nat.lt_of_le_of_lt least small) (by decide)

/-- **Parsing a written string.** -/
theorem parseString_escape {fuel : Nat} {text rest : JsString} {paired : Bool}
    (fueled : text.length < fuel) :
    parseString fuel (escape paired text ++ quote :: rest) = some (text, rest) := by
  induction text generalizing fuel paired with
  | nil =>
      obtain ⟨fuel, rfl⟩ := Nat.exists_eq_succ_of_ne_zero (Nat.ne_of_gt fueled)
      rfl
  | cons unit text ih =>
      obtain ⟨fuel, rfl⟩ := Nat.exists_eq_succ_of_ne_zero (Nat.ne_of_gt (Nat.zero_lt_of_lt fueled))
      have parsed := fun paired => @ih fuel paired (Nat.lt_of_succ_lt_succ fueled)
      unfold escape
      dsimp only
      rw [List.append_assoc]
      split_ifs with kept surrogate
      · rw [Bool.or_eq_true, Bool.and_eq_true, Bool.and_eq_true] at kept
        obtain ⟨plain, unescaped, printed⟩ :=
          surrogate_plain (kept.imp (fun pairs => pairs.1) fun after => after.2)
        rw [List.singleton_append, parseString_unit plain unescaped printed, parsed]
        rfl
      · rw [parseString_unicodeEscape, parsed]
        rfl
      · rw [parseString_escapeUnit, parsed]
        rfl

/-- Escaping makes no text shorter. -/
theorem length_escape (paired : Bool) (text : JsString) :
    text.length ≤ (escape paired text).length := by
  induction text generalizing paired with
  | nil => exact Nat.le_refl _
  | cons unit text ih =>
      unfold escape
      dsimp only
      rw [List.length_append, List.length_cons, Nat.add_comm]
      refine Nat.add_le_add ?_ (ih _)
      unfold escapeUnit unicodeEscape
      split_ifs <;> simp

/-- A string that begins with a quotation mark is parsed as a string. -/
theorem parseValue_stringifyString (fuel : Nat) (text rest : JsString) :
    parseValue (fuel + 1) (stringifyString text ++ rest) = some (.string text, rest) := by
  have longer := length_escape false text
  have body : parseString ((escape false text ++ [quote] ++ rest).length + 1)
      (escape false text ++ [quote] ++ rest) = some (text, rest) := by
    rw [List.append_assoc]
    apply parseString_escape
    rw [List.length_append]
    omega
  rw [stringifyString, List.cons_append, List.cons_append, parseValue, if_pos rfl, body]
  rfl

theorem skip_of_head {unit : CodeUnit} {rest : JsString} (plain : 32 < unit) :
    skip (unit :: rest) = unit :: rest := by
  have apart : (decide (unit ∈ ([9, 10, 13, 32] : List CodeUnit))) = false := by
    rw [decide_eq_false_iff_not]
    intro member
    rw [UInt16.lt_iff_toNat_lt] at plain
    simp only [List.mem_cons, List.not_mem_nil, or_false] at member
    rcases member with rfl | rfl | rfl | rfl <;> exact absurd plain (by decide)
  rw [skip, List.dropWhile_cons, apart]
  rfl

/-- What follows a mark. -/
theorem afterMark_cons {mark : CodeUnit} (rest : JsString) (plain : 32 < mark) :
    afterMark mark (mark :: rest) = some rest := by
  rw [afterMark, skip_of_head plain]
  exact if_pos rfl

/-- **Parsing undoes the writing of a string.** -/
theorem parse_stringifyString (text : JsString) :
    parse (stringifyString text) = some (.string text) := by
  have parsed := parseValue_stringifyString (stringifyString text).length text []
  rw [List.append_nil] at parsed
  unfold parse
  have opened : skip (stringifyString text) = stringifyString text := skip_of_head (by decide)
  rw [opened, parsed]
  rfl

/-- The members of a written record are parsed as they are. -/
theorem parseMembers_intercalate {members : List (JsString × JsString)} {fuel : Nat}
    (rest : JsString) (some : members ≠ []) (fueled : members.length + 1 < fuel) :
    parseMembers fuel (List.intercalate [44] (members.map stringifyMember) ++ 125 :: rest) =
      .some (members.map fun member => (member.1, .string member.2), rest) := by
  induction members generalizing fuel with
  | nil => exact absurd rfl some
  | cons member members ih =>
      obtain ⟨fuel, rfl⟩ := Nat.exists_eq_succ_of_ne_zero (Nat.ne_of_gt (Nat.zero_lt_of_lt fueled))
      obtain ⟨fuel, rfl⟩ : ∃ more, fuel = more + 1 := by
        refine Nat.exists_eq_succ_of_ne_zero ?_
        rw [List.length_cons] at fueled
        omega
      have key : ∀ after : JsString, parseString
          ((escape false member.1 ++ quote :: after).length + 1)
          (escape false member.1 ++ quote :: after) = .some (member.1, after) := by
        intro after
        apply parseString_escape
        have longer := length_escape false member.1
        rw [List.length_append]
        omega
      have opened : ∀ after : JsString, parseMembers (fuel + 2) (stringifyMember member ++ after) =
          match skip after with
          | mark :: rest =>
              if mark = 44 then
                (parseMembers (fuel + 1) rest).map fun more =>
                  ((member.1, .string member.2) :: more.1, more.2)
              else if mark = 125 then .some ([(member.1, .string member.2)], rest)
              else none
          | [] => none := by
        intro after
        have shape : stringifyMember member ++ after = quote :: (escape false member.1 ++
            quote :: 58 :: (stringifyString member.2 ++ after)) := by
          simp [stringifyMember, stringifyString]
        have text : skip (stringifyString member.2 ++ after) = stringifyString member.2 ++ after :=
          skip_of_head (by decide)
        rw [shape, parseMembers, afterMark_cons _ (by decide)]
        dsimp only [Option.bind_eq_bind, Option.bind_some]
        rw [key]
        dsimp only [Option.bind_some]
        rw [afterMark_cons _ (by decide)]
        dsimp only [Option.bind_some]
        rw [text, parseValue_stringifyString]
        rfl
      cases members with
      | nil =>
          rw [List.map_singleton, List.intercalate_singleton, opened, skip_of_head (by decide)]
          rfl
      | cons second members =>
          have more := @ih (fuel + 1) nofun (by
            rw [List.length_cons] at fueled
            exact Nat.lt_of_succ_lt_succ fueled)
          rw [List.map_cons, List.map_cons, List.intercalate_cons_cons, List.append_assoc,
            List.append_assoc, opened, List.singleton_append, skip_of_head (by decide)]
          dsimp only
          rw [if_pos rfl, ← List.map_cons, more]
          rfl

theorem length_members (members : List (JsString × JsString)) :
    members.length ≤ (List.intercalate [44] (members.map stringifyMember)).length := by
  induction members with
  | nil => exact Nat.zero_le _
  | cons member members ih =>
      have written : 1 ≤ (stringifyMember member).length := by
        rw [stringifyMember, stringifyString, List.length_append, List.length_append,
          List.length_cons]
        omega
      cases members with
      | nil =>
          rw [List.map_singleton, List.intercalate_singleton]
          exact written
      | cons second members =>
          rw [List.map_cons, List.map_cons, List.intercalate_cons_cons, List.length_append,
            List.length_append, ← List.map_cons, List.length_cons]
          omega

theorem parseValue_record (fuel : Nat) (rest : JsString) :
    parseValue (fuel + 1) (123 :: quote :: rest) =
      (parseMembers fuel (quote :: rest)).map fun found => (object found.1, found.2) := by
  rw [parseValue, if_neg (by decide), if_neg (by decide), if_pos rfl, skip_of_head (by decide),
    if_neg (by rw [List.head?_cons]; decide)]

/-- **Parsing undoes the writing of a record of strings.** -/
theorem parse_stringifyRecord {members : List (JsString × JsString)} (some : members ≠ []) :
    parse (stringifyRecord members) =
      .some (.object (members.map fun member => (member.1, .string member.2))) := by
  have parsed := @parseMembers_intercalate members (stringifyRecord members).length [] some (by
    have count := length_members members
    rw [stringifyRecord, List.cons_append, List.length_cons, List.length_append,
      List.length_singleton]
    omega)
  obtain ⟨rest, first⟩ : ∃ rest, List.intercalate [44] (members.map stringifyMember) ++ [125] =
      quote :: rest := by
    obtain ⟨member, members, rfl⟩ := List.exists_cons_of_ne_nil some
    cases members with
    | nil => exact ⟨_, rfl⟩
    | cons second members => exact ⟨_, rfl⟩
  have shape : stringifyRecord members = 123 :: quote :: rest := by
    rw [stringifyRecord, List.cons_append, first]
  rw [shape, first] at parsed
  rw [shape, parse, skip_of_head (by decide), parseValue_record, parsed]
  rfl

/-- A printed unit that is of the text itself or of ASCII. -/
def Written (text : JsString) (unit : CodeUnit) : Prop :=
  ¬ unit < 32 ∧ (unit ∈ text ∨ unit < 128)

theorem written_hexDigit {text : JsString} {value : Nat} (small : value < 16) :
    Written text (hexDigit value) := by
  have ascii : ∀ value < 16, ¬ hexDigit value < 32 ∧ hexDigit value < 128 := by decide
  exact ⟨(ascii value small).1, .inr (ascii value small).2⟩

theorem written_unicodeEscape (text : JsString) (unit : CodeUnit) :
    ∀ piece ∈ unicodeEscape unit, Written text piece := by
  intro piece member
  have bound := unit.toNat_lt
  simp only [unicodeEscape, List.mem_cons, List.not_mem_nil, or_false] at member
  rcases member with rfl | rfl | rfl | rfl | rfl | rfl
  · exact ⟨by decide, .inr (by decide)⟩
  · exact ⟨by decide, .inr (by decide)⟩
  all_goals exact written_hexDigit (by omega)

theorem written_escapeUnit {text : JsString} {unit : CodeUnit} (own : unit ∈ text) :
    ∀ piece ∈ escapeUnit unit, Written text piece := by
  have short : ∀ symbol : CodeUnit, ¬ symbol < 32 ∧ symbol < 128 →
      ∀ piece ∈ [reverseSolidus, symbol], Written text piece := by
    intro symbol ascii piece member
    rcases List.mem_cons.mp member with rfl | last
    · exact ⟨by decide, .inr (by decide)⟩
    · rw [List.mem_singleton.mp last]
      exact ⟨ascii.1, .inr ascii.2⟩
  unfold escapeUnit
  split_ifs with quoted solidus backspace formFeed lineFeed carriageReturn tab control
  · exact short 34 (by decide)
  · exact short 92 (by decide)
  · exact short 98 (by decide)
  · exact short 102 (by decide)
  · exact short 110 (by decide)
  · exact short 114 (by decide)
  · exact short 116 (by decide)
  · exact written_unicodeEscape text unit
  · intro piece member
    rw [List.mem_singleton.mp member]
    exact ⟨control, .inl own⟩

theorem written_escape {whole text : JsString} (paired : Bool)
    (inside : ∀ unit ∈ text, unit ∈ whole) :
    ∀ piece ∈ escape paired text, Written whole piece := by
  induction text generalizing paired with
  | nil => exact nofun
  | cons unit text ih =>
      have own : unit ∈ whole := inside unit List.mem_cons_self
      have rest := fun paired => ih paired fun other member =>
        inside other (List.mem_cons_of_mem _ member)
      intro piece member
      unfold escape at member
      dsimp only at member
      rcases List.mem_append.mp member with first | later
      · split_ifs at first with kept surrogate
        · rw [Bool.or_eq_true, Bool.and_eq_true, Bool.and_eq_true] at kept
          rw [List.mem_singleton.mp first]
          exact ⟨(surrogate_plain (kept.imp (fun pairs => pairs.1) fun after => after.2)).2.2,
            .inl own⟩
        · exact written_unicodeEscape whole unit piece first
        · exact written_escapeUnit own piece first
      · exact rest _ piece later

/-- A written string has only printed units, of its own and of ASCII. -/
theorem written_stringifyString (text : JsString) :
    ∀ piece ∈ stringifyString text, Written text piece := by
  have mark : Written text quote := ⟨by decide, .inr (by decide)⟩
  intro piece member
  rw [stringifyString, List.cons_append] at member
  rcases List.mem_cons.mp member with rfl | member
  · exact mark
  · rcases List.mem_append.mp member with inner | last
    · exact written_escape false (fun _ => id) piece inner
    · rw [List.mem_singleton.mp last]
      exact mark

/-- A written record has only printed units, of its members and of ASCII. -/
theorem written_stringifyRecord (members : List (JsString × JsString)) :
    ∀ piece ∈ stringifyRecord members,
      Written (members.flatMap fun member => member.1 ++ member.2) piece := by
  have mark : ∀ (whole : JsString) (symbol : CodeUnit), ¬ symbol < 32 ∧ symbol < 128 →
      Written whole symbol := fun _ _ ascii => ⟨ascii.1, .inr ascii.2⟩
  have wider : ∀ {text whole : JsString} {piece : CodeUnit}, (∀ unit ∈ text, unit ∈ whole) →
      Written text piece → Written whole piece :=
    fun inside written => ⟨written.1, written.2.imp_left (inside _)⟩
  have inner : ∀ {members : List (JsString × JsString)} {whole : JsString},
      (∀ unit ∈ members.flatMap fun member => member.1 ++ member.2, unit ∈ whole) →
      ∀ piece ∈ List.intercalate [44] (members.map stringifyMember), Written whole piece := by
    intro members whole inside
    induction members with
    | nil => exact nofun
    | cons member members ih =>
        rw [List.flatMap_cons] at inside
        have single : ∀ piece ∈ stringifyMember member, Written whole piece := by
          intro piece listed
          rcases List.mem_append.mp listed with key | value
          · exact wider (fun unit own => inside unit (List.mem_append_left _
              (List.mem_append_left _ own))) (written_stringifyString _ piece key)
          · rcases List.mem_cons.mp value with rfl | value
            · exact mark whole 58 (by decide)
            · exact wider (fun unit own => inside unit (List.mem_append_left _
                (List.mem_append_right _ own))) (written_stringifyString _ piece value)
        have more := ih fun unit own => inside unit (List.mem_append_right _ own)
        cases members with
        | nil =>
            rw [List.map_singleton, List.intercalate_singleton]
            exact single
        | cons second members =>
            intro piece listed
            rw [List.map_cons, List.map_cons, List.intercalate_cons_cons] at listed
            rcases List.mem_append.mp listed with first | rest
            · rcases List.mem_append.mp first with own | comma
              · exact single piece own
              · rw [List.mem_singleton.mp comma]
                exact mark whole 44 (by decide)
            · exact more piece rest
  intro piece listed
  rw [stringifyRecord, List.cons_append] at listed
  rcases List.mem_cons.mp listed with rfl | listed
  · exact mark _ 123 (by decide)
  · rcases List.mem_append.mp listed with own | last
    · exact inner (fun _ => id) piece own
    · rw [List.mem_singleton.mp last]
      exact mark _ 125 (by decide)

end Json
