import Kb1Daemon.Foundation.Json

/-! # JSON text over several lines

`JSON.stringify` with two blanks for a level. Parsing undoes the writing
(`Json.parse_pretty`) for values whose numbers are natural numbers in decimal.
-/

namespace Json

open Kb1Daemon (units)
open JsString (isDigit decimal)

/-- A new line with the indentation of a level. -/
def newLine (level : Nat) : JsString := 10 :: List.replicate (2 * level) 32

mutual

/-- `JSON.stringify(value, null, 2)`, on a level of indentation. -/
def pretty (level : Nat) : Json → JsString
  | .null => units "null"
  | .bool value => if value then units "true" else units "false"
  | .number text => text
  | .string value => stringifyString value
  | .array [] => units "[]"
  | .array (item :: items) =>
      91 :: newLine (level + 1) ++ pretty (level + 1) item ++ prettyItems (level + 1) items ++
        newLine level ++ [93]
  | .object [] => units "\x7b\x7d"
  | .object (member :: members) =>
      123 :: newLine (level + 1) ++ prettyMember (level + 1) member ++
        prettyMembers (level + 1) members ++ newLine level ++ [125]

/-- The items of an array after the first one. -/
def prettyItems (level : Nat) : List Json → JsString
  | [] => []
  | item :: items => 44 :: newLine level ++ pretty level item ++ prettyItems level items

def prettyMember (level : Nat) : JsString × Json → JsString
  | (key, value) => stringifyString key ++ 58 :: 32 :: pretty level value

/-- The members of a record after the first one. -/
def prettyMembers (level : Nat) : List (JsString × Json) → JsString
  | [] => []
  | member :: members =>
      44 :: newLine level ++ prettyMember level member ++ prettyMembers level members

end

/-- A natural number. -/
def natural (number : Nat) : Json := .number (decimal number)

/-- The values whose numbers are natural numbers. -/
inductive Plain : Json → Prop where
  | null : Plain .null
  | bool (value : Bool) : Plain (.bool value)
  | natural (number : Nat) : Plain (natural number)
  | string (value : JsString) : Plain (.string value)
  | array {items : List Json} : (∀ item ∈ items, Plain item) → Plain (.array items)
  | object {members : List (JsString × Json)} : (∀ member ∈ members, Plain member.2) →
      Plain (.object members)

/-- The text does not go on with a number. -/
def Ends (text : JsString) : Prop :=
  ∀ unit ∈ text.head?, isDigit unit = false ∧ unit ∉ ([46, 69, 101] : List CodeUnit)

theorem skip_newLine (level : Nat) (text : JsString) : skip (newLine level ++ text) = skip text := by
  have blanks : ∀ count : Nat, skip (List.replicate count 32 ++ text) = skip text := by
    intro count
    induction count with
    | zero => rfl
    | succ count ih =>
        rw [List.replicate_succ, List.cons_append]
        exact ih
  exact blanks (2 * level)

/-- Decimal numerals have no leading zeros. -/
theorem head?_decimalLoop {fuel number : Nat} (fueled : number < fuel) (positive : 0 < number)
    (text : JsString) : (JsString.decimalLoop fuel number text).head? ≠ some 48 := by
  induction fuel generalizing number text with
  | zero => exact absurd fueled (Nat.not_lt_zero _)
  | succ fuel ih =>
      unfold JsString.decimalLoop
      split
      · rename_i last
        have digit : ∀ value < 10, 0 < value → some (JsString.decimalDigit value) ≠ some 48 := by
          decide
        rw [List.head?_cons]
        exact digit _ (Nat.mod_lt _ (by decide)) (by omega)
      · exact ih (by omega) (by omega) _

theorem decimal_leads (number : Nat) :
    ¬ ((decimal number).head? = some 48 ∧ (decimal number).length ≠ 1) := by
  rintro ⟨zero, long⟩
  by_cases none : number = 0
  · subst none
    exact long rfl
  · exact head?_decimalLoop (Nat.lt_succ_self number) (Nat.pos_of_ne_zero none) [] zero

theorem parseNumber_decimal (number : Nat) {rest : JsString} (ends : Ends rest) :
    parseNumber (decimal number ++ rest) = some (decimal number, rest) := by
  obtain ⟨first, later, written⟩ := List.exists_cons_of_ne_nil (JsString.decimal_ne_nil number)
  have allDigits := JsString.isDigit_decimal number
  have unsigned : (decimal number ++ rest).head? ≠ some 45 := by
    rw [written, List.cons_append, List.head?_cons]
    rintro minus
    rw [written, List.all_cons, Bool.and_eq_true, Option.some.inj minus] at allDigits
    exact absurd allDigits.1 (by decide)
  have stops : rest.takeWhile isDigit = [] ∧ rest.dropWhile isDigit = rest := by
    cases rest with
    | nil => exact ⟨rfl, rfl⟩
    | cons unit rest =>
        have other := (ends unit rfl).1
        constructor
        · rw [List.takeWhile_cons, other]
          rfl
        · rw [List.dropWhile_cons, other]
          rfl
  have whole : digits (decimal number ++ rest) = some (decimal number, rest) := by
    have member := List.all_eq_true.mp allDigits
    rw [digits, List.takeWhile_append_of_pos member, List.dropWhile_append_of_pos member, stops.1,
      stops.2, List.append_nil, if_neg]
    rw [List.isEmpty_iff]
    exact JsString.decimal_ne_nil number
  have nothing : ∀ marks signs : List CodeUnit, (∀ mark ∈ marks, mark ∈ ([46, 69, 101] : List CodeUnit)) →
      optionalPart marks signs rest = some ([], rest) := by
    intro marks signs known
    cases rest with
    | nil => rfl
    | cons unit rest =>
        unfold optionalPart
        exact if_neg fun member => (ends unit rfl).2 (known unit member)
  rw [parseNumber, if_neg unsigned]
  rw [List.take_zero, List.length_nil, List.drop_zero, whole]
  dsimp only [Option.bind_eq_bind, Option.bind_some]
  rw [if_neg (decimal_leads number), nothing [46] [] (by simp)]
  dsimp only [Option.bind_some]
  rw [nothing [69, 101] [43, 45] (by simp)]
  simp

/-- A written value begins with a visible unit. -/
theorem pretty_head {value : Json} (plain : Plain value) (level : Nat) :
    ∃ unit rest, pretty level value = unit :: rest ∧ 32 < unit ∧ unit ≠ 93 := by
  cases plain with
  | null => exact ⟨_, _, rfl, by decide, by decide⟩
  | bool value =>
      cases value with
      | true => exact ⟨_, _, rfl, by decide, by decide⟩
      | false => exact ⟨_, _, rfl, by decide, by decide⟩
  | natural number =>
      obtain ⟨first, rest, written⟩ := List.exists_cons_of_ne_nil (JsString.decimal_ne_nil number)
      refine ⟨first, rest, by rw [natural, pretty, written], ?_⟩
      have digits := JsString.isDigit_decimal number
      rw [written, List.all_cons, Bool.and_eq_true, isDigit, Bool.and_eq_true, decide_eq_true_eq,
        UInt16.le_iff_toNat_le] at digits
      rw [UInt16.lt_iff_toNat_lt]
      refine ⟨Nat.lt_of_lt_of_le (by decide) digits.1.1, ?_⟩
      rintro rfl
      exact absurd digits.1.2 (by decide)
  | string value => exact ⟨_, _, rfl, by decide, by decide⟩
  | @array items _ =>
      cases items with
      | nil => exact ⟨_, _, rfl, by decide, by decide⟩
      | cons item items => exact ⟨91, _, by rw [pretty]; rfl, by decide, by decide⟩
  | @object members _ =>
      cases members with
      | nil => exact ⟨_, _, rfl, by decide, by decide⟩
      | cons member members => exact ⟨123, _, by rw [pretty]; rfl, by decide, by decide⟩

theorem skip_pretty {value : Json} (plain : Plain value) (level : Nat) (rest : JsString) :
    skip (pretty level value ++ rest) = pretty level value ++ rest := by
  obtain ⟨unit, later, written, visible, _⟩ := pretty_head plain level
  rw [written, List.cons_append]
  exact skip_of_head visible

/-- The value is parsed from its text, whatever follows it. -/
def ParsedBack (value : Json) : Prop :=
  ∀ (level fuel : Nat) (rest : JsString), Ends rest → (pretty level value).length ≤ fuel →
    parseValue fuel (pretty level value ++ rest) = some (value, rest)

theorem ends_cons {unit : CodeUnit} (other : isDigit unit = false)
    (mark : unit ∉ ([46, 69, 101] : List CodeUnit)) (rest : JsString) : Ends (unit :: rest) := by
  intro first same
  obtain rfl := Option.some.inj same
  exact ⟨other, mark⟩

theorem ends_newLine (level : Nat) (rest : JsString) : Ends (newLine level ++ rest) :=
  ends_cons (by decide) (by decide) _

theorem parseItems_pretty {item : Json} {items : List Json} {level outer fuel : Nat}
    {rest : JsString} (plain : ∀ other ∈ item :: items, Plain other)
    (parsed : ∀ other ∈ item :: items, ParsedBack other)
    (fueled : (pretty level item ++ prettyItems level items).length < fuel) :
    parseItems fuel (newLine level ++ (pretty level item ++ (prettyItems level items ++
      (newLine outer ++ 93 :: rest)))) = some (item :: items, rest) := by
  induction items generalizing item fuel with
  | nil =>
      obtain ⟨fuel, rfl⟩ := Nat.exists_eq_succ_of_ne_zero (Nat.ne_of_gt (Nat.zero_lt_of_lt fueled))
      have first := parsed item List.mem_cons_self level fuel (newLine outer ++ 93 :: rest)
        (ends_newLine _ _) (by
          rw [List.length_append] at fueled
          omega)
      rw [prettyItems, List.nil_append, parseItems, skip_newLine,
        skip_pretty (plain item List.mem_cons_self), first]
      dsimp only [Option.bind_eq_bind, Option.bind_some]
      rw [skip_newLine, skip_of_head (by decide)]
      rfl
  | cons second items ih =>
      obtain ⟨fuel, rfl⟩ := Nat.exists_eq_succ_of_ne_zero (Nat.ne_of_gt (Nat.zero_lt_of_lt fueled))
      have first := parsed item List.mem_cons_self level fuel
        (prettyItems level (second :: items) ++ (newLine outer ++ 93 :: rest))
        (by
          rw [prettyItems]
          exact ends_cons (by decide) (by decide) _)
        (by
          rw [List.length_append] at fueled
          omega)
      have more := @ih second fuel (fun other member => plain other (List.mem_cons_of_mem _ member))
        (fun other member => parsed other (List.mem_cons_of_mem _ member)) (by
          rw [List.length_append, prettyItems, List.length_append, List.length_append,
            List.length_cons] at fueled
          rw [List.length_append]
          omega)
      rw [parseItems, skip_newLine, skip_pretty (plain item List.mem_cons_self), first]
      dsimp only [Option.bind_eq_bind, Option.bind_some]
      rw [prettyItems, List.cons_append, List.cons_append, List.cons_append, skip_of_head (by decide)]
      dsimp only
      rw [if_pos rfl, List.append_assoc, List.append_assoc, more]
      rfl

theorem parseMember_pretty {member : JsString × Json} (plain : Plain member.2) (level : Nat)
    (rest : JsString) :
    ∃ opened named, afterMark quote (newLine level ++ (prettyMember level member ++ rest)) =
        some opened ∧
      parseString (opened.length + 1) opened = some (member.1, named) ∧
        ∃ text, afterMark 58 named = some text ∧ skip text = pretty level member.2 ++ rest := by
  obtain ⟨key, value⟩ := member
  refine ⟨escape false key ++ quote :: 58 :: 32 :: (pretty level value ++ rest),
    58 :: 32 :: (pretty level value ++ rest), ?_, ?_, 32 :: (pretty level value ++ rest), ?_, ?_⟩
  · have shape : prettyMember level (key, value) ++ rest =
        quote :: (escape false key ++ quote :: 58 :: 32 :: (pretty level value ++ rest)) := by
      simp [prettyMember, stringifyString]
    rw [afterMark, skip_newLine, shape, skip_of_head (by decide)]
    rfl
  · apply parseString_escape
    have longer := length_escape false key
    rw [List.length_append]
    omega
  · exact afterMark_cons _ (by decide)
  · exact skip_pretty plain level rest

theorem parseMembers_pretty {member : JsString × Json} {members : List (JsString × Json)}
    {level outer fuel : Nat} {rest : JsString} (plain : ∀ other ∈ member :: members, Plain other.2)
    (parsed : ∀ other ∈ member :: members, ParsedBack other.2)
    (fueled : (prettyMember level member ++ prettyMembers level members).length < fuel) :
    parseMembers fuel (newLine level ++ (prettyMember level member ++ (prettyMembers level members ++
      (newLine outer ++ 125 :: rest)))) = some (member :: members, rest) := by
  have shorter : ∀ other : JsString × Json,
      (pretty level other.2).length ≤ (prettyMember level other).length := by
    rintro ⟨key, value⟩
    simp only [prettyMember, List.length_append, List.length_cons]
    omega
  induction members generalizing member fuel with
  | nil =>
      obtain ⟨fuel, rfl⟩ := Nat.exists_eq_succ_of_ne_zero (Nat.ne_of_gt (Nat.zero_lt_of_lt fueled))
      obtain ⟨opened, named, marked, key, text, after, value⟩ := parseMember_pretty
        (plain member List.mem_cons_self) level
        (prettyMembers level [] ++ (newLine outer ++ 125 :: rest))
      have first := parsed member List.mem_cons_self level fuel
        (prettyMembers level [] ++ (newLine outer ++ 125 :: rest))
        (by
          rw [prettyMembers, List.nil_append]
          exact ends_newLine _ _)
        (by
          have := shorter member
          rw [List.length_append] at fueled
          omega)
      rw [parseMembers, marked]
      dsimp only [Option.bind_eq_bind, Option.bind_some]
      rw [key]
      dsimp only [Option.bind_some]
      rw [after]
      dsimp only [Option.bind_some]
      rw [value, first]
      dsimp only [Option.bind_some]
      rw [prettyMembers, List.nil_append, skip_newLine, skip_of_head (by decide)]
      rfl
  | cons second members ih =>
      obtain ⟨fuel, rfl⟩ := Nat.exists_eq_succ_of_ne_zero (Nat.ne_of_gt (Nat.zero_lt_of_lt fueled))
      obtain ⟨opened, named, marked, key, text, after, value⟩ := parseMember_pretty
        (plain member List.mem_cons_self) level
        (prettyMembers level (second :: members) ++ (newLine outer ++ 125 :: rest))
      have first := parsed member List.mem_cons_self level fuel
        (prettyMembers level (second :: members) ++ (newLine outer ++ 125 :: rest))
        (by
          rw [prettyMembers]
          exact ends_cons (by decide) (by decide) _)
        (by
          have := shorter member
          rw [List.length_append] at fueled
          omega)
      have more := @ih second fuel (fun other listed => plain other (List.mem_cons_of_mem _ listed))
        (fun other listed => parsed other (List.mem_cons_of_mem _ listed)) (by
          rw [List.length_append, prettyMembers, List.length_append, List.length_append,
            List.length_cons] at fueled
          rw [List.length_append]
          omega)
      rw [parseMembers, marked]
      dsimp only [Option.bind_eq_bind, Option.bind_some]
      rw [key]
      dsimp only [Option.bind_some]
      rw [after]
      dsimp only [Option.bind_some]
      rw [value, first]
      dsimp only [Option.bind_some]
      rw [prettyMembers, List.cons_append, List.cons_append, List.cons_append,
        skip_of_head (by decide)]
      dsimp only
      rw [if_pos rfl, List.append_assoc, List.append_assoc, more]
      rfl

/-- Every plain value is parsed from its text. -/
theorem parsedBack_of_plain {value : Json} (plain : Plain value) : ParsedBack value := by
  induction plain with
  | null =>
      intro level fuel rest _ fueled
      obtain ⟨fuel, rfl⟩ := Nat.exists_eq_succ_of_ne_zero
        (Nat.ne_of_gt (Nat.lt_of_lt_of_le (by decide : 0 < 4) fueled))
      rfl
  | bool value =>
      intro level fuel rest _ fueled
      cases value with
      | true =>
          obtain ⟨fuel, rfl⟩ := Nat.exists_eq_succ_of_ne_zero
            (Nat.ne_of_gt (Nat.lt_of_lt_of_le (by decide : 0 < 4) fueled))
          rfl
      | false =>
          obtain ⟨fuel, rfl⟩ := Nat.exists_eq_succ_of_ne_zero
            (Nat.ne_of_gt (Nat.lt_of_lt_of_le (by decide : 0 < 5) fueled))
          rfl
  | natural number =>
      intro level fuel rest ends fueled
      obtain ⟨first, later, written⟩ := List.exists_cons_of_ne_nil (JsString.decimal_ne_nil number)
      have digits := JsString.isDigit_decimal number
      have parsed := parseNumber_decimal number ends
      rw [natural, pretty] at fueled ⊢
      rw [written] at digits parsed fueled ⊢
      obtain ⟨fuel, rfl⟩ := Nat.exists_eq_succ_of_ne_zero
        (Nat.ne_of_gt (Nat.lt_of_lt_of_le (Nat.succ_pos _) fueled))
      have digit : isDigit first = true := (List.all_cons ▸ digits |> Bool.and_eq_true_iff.mp).1
      have other : ∀ unit : CodeUnit, isDigit unit = false → first ≠ unit := by
        rintro unit letter rfl
        rw [digit] at letter
        cases letter
      have word : ∀ text : JsString, (text.head?.any fun unit => !isDigit unit) = true →
          ¬ text.isPrefixOf (first :: (later ++ rest)) = true := by
        intro text letter
        cases text with
        | nil => cases letter
        | cons initial text =>
            rw [List.isPrefixOf, Bool.and_eq_true, beq_iff_eq, not_and]
            intro same
            exact absurd same.symm (other initial (by simpa using letter))
      rw [List.cons_append] at parsed ⊢
      rw [parseValue, if_neg (other _ (by decide)), if_neg (other _ (by decide)),
        if_neg (other _ (by decide)), literal, literal, literal]
      rw [if_neg (word _ (by decide)), if_neg (word _ (by decide)), if_neg (word _ (by decide)), parsed]
      rfl
  | string value =>
      intro level fuel rest _ fueled
      have long : 0 < (stringifyString value).length := by
        rw [stringifyString, List.cons_append, List.length_cons]
        omega
      obtain ⟨fuel, rfl⟩ := Nat.exists_eq_succ_of_ne_zero
        (Nat.ne_of_gt (Nat.lt_of_lt_of_le long fueled))
      exact parseValue_stringifyString fuel value rest
  | @array items plain parsed =>
      intro level fuel rest _ fueled
      cases items with
      | nil =>
          obtain ⟨fuel, rfl⟩ := Nat.exists_eq_succ_of_ne_zero
            (Nat.ne_of_gt (Nat.lt_of_lt_of_le (by decide : 0 < 2) fueled))
          rfl
      | cons item items =>
          have shape : pretty level (.array (item :: items)) ++ rest =
              91 :: (newLine (level + 1) ++ (pretty (level + 1) item ++
                (prettyItems (level + 1) items ++ (newLine level ++ 93 :: rest)))) := by
            rw [pretty]
            simp
          have long : (pretty (level + 1) item ++ prettyItems (level + 1) items).length + 3 ≤ fuel := by
            rw [pretty] at fueled
            simp only [newLine, List.length_append, List.length_cons, List.length_nil] at fueled ⊢
            omega
          obtain ⟨fuel, rfl⟩ := Nat.exists_eq_succ_of_ne_zero
            (Nat.ne_of_gt (Nat.lt_of_lt_of_le (Nat.succ_pos _) long))
          have items' := @parseItems_pretty item items (level + 1) level fuel rest plain parsed (by omega)
          have some : (skip (newLine (level + 1) ++ (pretty (level + 1) item ++
              (prettyItems (level + 1) items ++ (newLine level ++ 93 :: rest))))).head? ≠ some 93 := by
            obtain ⟨unit, later, written, visible, other⟩ :=
              pretty_head (plain item List.mem_cons_self) (level + 1)
            rw [skip_newLine, written, List.cons_append, skip_of_head visible, List.head?_cons]
            exact fun same => other (Option.some.inj same)
          rw [shape, parseValue, if_neg (by decide), if_pos rfl, if_neg some, items']
          rfl
  | @object members plain parsed =>
      intro level fuel rest _ fueled
      cases members with
      | nil =>
          obtain ⟨fuel, rfl⟩ := Nat.exists_eq_succ_of_ne_zero
            (Nat.ne_of_gt (Nat.lt_of_lt_of_le (by decide : 0 < 2) fueled))
          rfl
      | cons member members =>
          have shape : pretty level (.object (member :: members)) ++ rest =
              123 :: (newLine (level + 1) ++ (prettyMember (level + 1) member ++
                (prettyMembers (level + 1) members ++ (newLine level ++ 125 :: rest)))) := by
            rw [pretty]
            simp
          have long : (prettyMember (level + 1) member ++
              prettyMembers (level + 1) members).length + 3 ≤ fuel := by
            rw [pretty] at fueled
            simp only [newLine, List.length_append, List.length_cons, List.length_nil] at fueled ⊢
            omega
          obtain ⟨fuel, rfl⟩ := Nat.exists_eq_succ_of_ne_zero
            (Nat.ne_of_gt (Nat.lt_of_lt_of_le (Nat.succ_pos _) long))
          have members' := @parseMembers_pretty member members (level + 1) level fuel rest plain parsed
            (by omega)
          have some : (skip (newLine (level + 1) ++ (prettyMember (level + 1) member ++
              (prettyMembers (level + 1) members ++ (newLine level ++ 125 :: rest))))).head? ≠
                some 125 := by
            obtain ⟨key, value⟩ := member
            rw [skip_newLine, prettyMember, stringifyString, List.cons_append, List.cons_append,
              List.cons_append, skip_of_head (by decide), List.head?_cons]
            exact fun same => absurd (Option.some.inj same) (by decide)
          rw [shape, parseValue, if_neg (by decide), if_neg (by decide), if_pos rfl, if_neg some,
            members']
          rfl

/-- **Parsing undoes the writing over several lines.** A new line may follow the text. -/
theorem parse_pretty {value : Json} (plain : Plain value) (tail : JsString) (blank : skip tail = [])
    (ends : Ends tail) : parse (pretty 0 value ++ tail) = some value := by
  have parsed := parsedBack_of_plain plain 0 ((pretty 0 value ++ tail).length + 1) tail ends (by
    rw [List.length_append]
    omega)
  rw [parse, skip_pretty plain, parsed]
  exact if_pos blank

end Json
