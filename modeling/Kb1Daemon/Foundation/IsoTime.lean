import Kb1Daemon.Foundation.Numeral
import Mathlib.Data.List.Basic

/-! # Times as text

A time is a number of milliseconds; its date is one of the proleptic Gregorian calendar, whose
years are counted from March so that a leap day is the last day of its year. A time in a year of
four digits is read back from its text (`IsoTime.datetime_toISOString`).
-/

namespace IsoTime

open Kb1Daemon (units)
open JsString (isDigit decimalDigit digitValue digitsValue)

structure CivilDate where
  year : Int
  month : Nat
  day : Nat
  deriving DecidableEq, Repr

/-- A year of an era of 400 years, and a day of that year. -/
structure YearDay where
  year : Nat
  day : Nat
  deriving DecidableEq, Repr

/-- The year of a day of an era. -/
def yearDay (day : Nat) : YearDay :=
  let century := min 3 (day / 36524)
  let inCentury := day - 36524 * century
  let cycle := inCentury / 1461
  let inCycle := inCentury - 1461 * cycle
  let year := min 3 (inCycle / 365)
  ⟨100 * century + 4 * cycle + year, inCycle - 365 * year⟩

/-- The first day of a year of an era. -/
def startOfYear (year : Nat) : Nat := 365 * year + year / 4 - year / 100

/-- The first day of a month in its year, counted from March. -/
def startOfMonth (month : Nat) : Nat := (153 * month + 2) / 5

def isLeap (year : Int) : Bool := year % 4 = 0 && (year % 100 ≠ 0 || year % 400 = 0)

def daysInMonth (year : Int) (month : Nat) : Nat :=
  if month = 2 then if isLeap year then 29 else 28
  else if month ∈ [4, 6, 9, 11] then 30
  else 31

/-- The month of a day of a year, counted from March. -/
def monthOfDay (day : Nat) : Nat := (5 * day + 2) / 153

/-- The date of a day of an era. -/
def dateInEra (era : Int) (inEra : YearDay) : CivilDate :=
  let month := monthOfDay inEra.day
  let day := inEra.day - startOfMonth month + 1
  if month < 10 then ⟨era * 400 + inEra.year, month + 3, day⟩
  else ⟨era * 400 + inEra.year + 1, month - 9, day⟩

/-- The date of a day after the first of January 1970. -/
def dateOfDay (day : Int) : CivilDate :=
  dateInEra ((day + 719468) / 146097) (yearDay ((day + 719468) % 146097).toNat)

/-- The day of a year and a month that are counted from March. -/
def dayFromMarch (year : Int) (month day : Nat) : Int :=
  year / 400 * 146097 + startOfYear (year % 400).toNat + startOfMonth month + (day - 1) - 719468

def dayOfDate (date : CivilDate) : Int :=
  if date.month ≤ 2 then dayFromMarch (date.year - 1) (date.month + 9) date.day
  else dayFromMarch date.year (date.month - 3) date.day

/-- The year and the day of a day of an era; the last day of a leap year ends a leap year. -/
theorem yearDay_spec {day : Nat} (within : day < 146097) :
    (yearDay day).year < 400 ∧ startOfYear (yearDay day).year + (yearDay day).day = day ∧
      (yearDay day).day < 366 ∧ ((yearDay day).day = 365 →
        (yearDay day).year % 4 = 3 ∧
          ((yearDay day).year % 100 ≠ 99 ∨ (yearDay day).year = 399)) := by
  unfold yearDay startOfYear
  dsimp only
  generalize century : min 3 (day / 36524) = c
  generalize inCentury : day - 36524 * c = r
  generalize cycle : r / 1461 = q
  generalize inCycle : r - 1461 * q = s
  generalize year : min 3 (s / 365) = y
  have centuries : c ≤ 3 := by omega
  have lastCentury : r ≤ 36524 ∧ (r = 36524 → c = 3) := by omega
  have cycles : q ≤ 24 := by omega
  have lastCycle : s < 1461 ∧ (s = 1460 → q = 24 → c = 3) := by omega
  have years : y ≤ 3 := by omega
  have quarter : (100 * c + 4 * q + y) / 4 = 25 * c + q := by omega
  have hundredth : (100 * c + 4 * q + y) / 100 = c := by omega
  rw [quarter, hundredth]
  refine ⟨by omega, by omega, by omega, fun last => ?_⟩
  have : y = 3 := by omega
  omega

theorem monthOfDay_spec {day : Nat} (within : day < 366) :
    monthOfDay day < 12 ∧ startOfMonth (monthOfDay day) ≤ day ∧
      day < startOfMonth (monthOfDay day + 1) := by
  unfold monthOfDay startOfMonth
  omega

theorem dayFromMarch_era {era : Int} {year : Nat} (early : year < 400) (month day : Nat) :
    dayFromMarch (era * 400 + year) month day =
      era * 146097 + startOfYear year + startOfMonth month + (day - 1) - 719468 := by
  have whole : (era * 400 + year) / 400 = era := by omega
  have left : (era * 400 + year) % 400 = year := by omega
  rw [dayFromMarch, whole, left, Int.toNat_natCast]

/-- The day of a date of an era. -/
theorem dayOfDate_dateInEra {era : Int} {inEra : YearDay} (early : inEra.year < 400)
    (short : inEra.day < 366) :
    dayOfDate (dateInEra era inEra) =
      era * 146097 + startOfYear inEra.year + inEra.day - 719468 := by
  obtain ⟨months, begun, _⟩ := monthOfDay_spec short
  unfold dateInEra dayOfDate
  generalize monthOfDay inEra.day = month at months begun
  dsimp only
  by_cases late : month < 10
  · rw [if_pos late]
    dsimp only
    rw [if_neg (by omega), dayFromMarch_era early, Nat.add_sub_cancel]
    omega
  · rw [if_neg late]
    dsimp only
    have sum : month - 9 + 9 = month := by omega
    rw [if_pos (by omega), Int.add_sub_cancel, sum, dayFromMarch_era early]
    omega

/-- The day of the date of a day is that day. -/
theorem dayOfDate_dateOfDay (day : Int) : dayOfDate (dateOfDay day) = day := by
  have within : ((day + 719468) % 146097).toNat < 146097 := by omega
  obtain ⟨early, whole, short, _⟩ := yearDay_spec within
  rw [dateOfDay, dayOfDate_dateInEra early short]
  omega

theorem daysInMonth_of_ne_february {year : Int} {month : Nat} (other : month ≠ 2) :
    daysInMonth year month = if month ∈ [4, 6, 9, 11] then 30 else 31 := by
  rw [daysInMonth, if_neg other]

/-- The days of the months from March to December. -/
theorem daysInMonth_march {year : Int} {month : Nat} (late : month < 10) :
    daysInMonth year (month + 3) = startOfMonth (month + 1) - startOfMonth month := by
  rw [daysInMonth_of_ne_february (by omega)]
  revert month
  decide

/-- The last day of a year that ends in a leap day is the 366th. -/
theorem isLeap_of_last {era : Int} {year : Nat} (fourth : year % 4 = 3)
    (century : year % 100 ≠ 99 ∨ year = 399) : isLeap (era * 400 + year + 1) = true := by
  rw [isLeap, Bool.and_eq_true, Bool.or_eq_true, decide_eq_true_eq, decide_eq_true_eq,
    decide_eq_true_eq]
  omega

/-- The month and the day of a date are those of a calendar. -/
theorem dateOfDay_valid (day : Int) :
    1 ≤ (dateOfDay day).month ∧ (dateOfDay day).month ≤ 12 ∧ 1 ≤ (dateOfDay day).day ∧
      (dateOfDay day).day ≤ daysInMonth (dateOfDay day).year (dateOfDay day).month := by
  have within : ((day + 719468) % 146097).toNat < 146097 := by omega
  obtain ⟨early, _, short, leap⟩ := yearDay_spec within
  unfold dateOfDay
  generalize yearDay ((day + 719468) % 146097).toNat = inEra at early short leap
  generalize (day + 719468) / 146097 = era
  obtain ⟨months, begun, ended⟩ := monthOfDay_spec short
  unfold dateInEra
  generalize monthOfDay inEra.day = month at months begun ended
  dsimp only
  by_cases late : month < 10
  · rw [if_pos late]
    dsimp only
    rw [daysInMonth_march late]
    omega
  · rw [if_neg late]
    dsimp only
    obtain rfl | rfl : month = 10 ∨ month = 11 := by omega
    · have length : startOfMonth 10 = 306 ∧ startOfMonth (10 + 1) = 337 := ⟨rfl, rfl⟩
      rw [daysInMonth_of_ne_february (by decide), if_neg (by decide)]
      omega
    · have length : startOfMonth 11 = 337 := rfl
      rw [daysInMonth, if_pos rfl]
      by_cases last : inEra.day = 365
      · obtain ⟨fourth, century⟩ := leap last
        rw [isLeap_of_last fourth century, if_pos rfl]
        omega
      · split_ifs <;> omega

/-! ## Text -/

/-- The last digits of a number. -/
def digitsOf : Nat → Nat → JsString
  | 0, _ => []
  | count + 1, number => digitsOf count (number / 10) ++ [decimalDigit (number % 10)]

/-- A year; one that has not four digits is written with a sign and six. -/
def yearText (year : Int) : JsString :=
  if 0 ≤ year ∧ year ≤ 9999 then digitsOf 4 year.toNat
  else (if year < 0 then 45 else 43) :: digitsOf 6 year.natAbs

def msPerDay : Int := 86400000

/-- The date of a time. -/
def dateOf (time : Int) : CivilDate := dateOfDay (time / msPerDay)

/-- The milliseconds since midnight. -/
def timeOfDay (time : Int) : Nat := (time % msPerDay).toNat

/-- The hours, minutes, seconds and milliseconds of a time of day. -/
def clockText (time : Nat) : JsString :=
  digitsOf 2 (time / 3600000) ++ 58 :: (digitsOf 2 (time / 60000 % 60) ++
    58 :: (digitsOf 2 (time / 1000 % 60) ++ 46 :: (digitsOf 3 (time % 1000) ++ [90])))

/-- `toISOString`; `none` when the time is no date. -/
def toISOString (time : Int) : Option JsString :=
  if time.natAbs ≤ 8640000000000000 then
    some (yearText (dateOf time).year ++ 45 :: (digitsOf 2 (dateOf time).month ++
      45 :: (digitsOf 2 (dateOf time).day ++ 84 :: clockText (timeOfDay time))))
  else none

/-- The number that some digits stand for, and the text after them. -/
def field (count : Nat) (text : JsString) : Option (Nat × JsString) :=
  if (text.take count).length = count ∧ (text.take count).all isDigit then
    some (digitsValue 10 digitValue 0 (text.take count), text.drop count)
  else none

def mark (unit : CodeUnit) : JsString → Option JsString
  | [] => none
  | first :: rest => if first = unit then some rest else none

/-- The seconds and milliseconds, which may be left out, and the text after them. -/
def seconds (text : JsString) : Option (Nat × Nat × JsString) :=
  match mark 58 text with
  | none => some (0, 0, text)
  | some text =>
      (field 2 text).bind fun (second, text) =>
        match mark 46 text with
        | none => some (second, 0, text)
        | some text =>
            if text.takeWhile isDigit = [] then none
            else some (second,
              digitsValue 10 digitValue 0 ((text.takeWhile isDigit ++ [48, 48, 48]).take 3),
              text.dropWhile isDigit)

/-- The time of a date and time in UTC, as the expression of `z.iso.datetime` reads it. -/
def datetime (text : JsString) : Option Int := do
  let (year, text) ← field 4 text
  let (month, text) ← (mark 45 text).bind (field 2)
  let (day, text) ← (mark 45 text).bind (field 2)
  let (hour, text) ← (mark 84 text).bind (field 2)
  let (minute, text) ← (mark 58 text).bind (field 2)
  let (second, milli, text) ← seconds text
  if 1 ≤ month ∧ month ≤ 12 ∧ 1 ≤ day ∧ day ≤ daysInMonth year month ∧ hour < 24 ∧ minute < 60 ∧
      second < 60 ∧ text = [90] then
    some (dayOfDate ⟨year, month, day⟩ * msPerDay +
      (hour * 3600000 + minute * 60000 + second * 1000 + milli : Nat))
  else none

theorem length_digitsOf (count number : Nat) : (digitsOf count number).length = count := by
  induction count generalizing number with
  | zero => rfl
  | succ count ih => rw [digitsOf, List.length_append, ih, List.length_singleton]

theorem isDigit_digitsOf (count number : Nat) : (digitsOf count number).all isDigit = true := by
  induction count generalizing number with
  | zero => rfl
  | succ count ih =>
      rw [digitsOf, List.all_append, ih, Bool.true_and, List.all_cons, List.all_nil,
        JsString.isDigit_decimalDigit (Nat.mod_lt _ (by decide)), Bool.true_and]

theorem digitsValue_digitsOf {count number : Nat} (short : number < 10 ^ count) :
    digitsValue 10 digitValue 0 (digitsOf count number) = number := by
  induction count generalizing number with
  | zero => exact (Nat.lt_one_iff.mp short).symm
  | succ count ih =>
      have fewer : number / 10 < 10 ^ count := Nat.div_lt_of_lt_mul (by
        rwa [Nat.pow_succ, Nat.mul_comm] at short)
      have value := ih fewer
      unfold digitsValue at value ⊢
      rw [digitsOf, List.foldl_append, value, List.foldl_cons, List.foldl_nil,
        JsString.digitValue_decimalDigit (Nat.mod_lt _ (by decide))]
      omega

theorem field_digitsOf {count number : Nat} (short : number < 10 ^ count) (rest : JsString) :
    field count (digitsOf count number ++ rest) = some (number, rest) := by
  have front : (digitsOf count number ++ rest).take count = digitsOf count number := by
    rw [List.take_append_of_le_length (length_digitsOf count number).ge,
      List.take_of_length_le (length_digitsOf count number).le]
  have back : (digitsOf count number ++ rest).drop count = rest := by
    rw [List.drop_append_of_le_length (length_digitsOf count number).ge,
      List.drop_of_length_le (length_digitsOf count number).le, List.nil_append]
  rw [field, front, back, digitsValue_digitsOf short,
    if_pos ⟨length_digitsOf count number, isDigit_digitsOf count number⟩]

theorem mark_cons (unit : CodeUnit) (rest : JsString) : mark unit (unit :: rest) = some rest :=
  if_pos rfl

/-- The seconds of a clock are read back. -/
theorem seconds_digitsOf {second milli : Nat} (shortSecond : second < 100)
    (shortMilli : milli < 1000) :
    seconds (58 :: (digitsOf 2 second ++ 46 :: (digitsOf 3 milli ++ [90]))) =
      some (second, milli, [90]) := by
  have digits := isDigit_digitsOf 3 milli
  have whole : (digitsOf 3 milli ++ [90]).takeWhile isDigit = digitsOf 3 milli := by
    rw [List.takeWhile_append_of_pos (List.all_eq_true.mp digits)]
    exact List.append_nil _
  have rest : (digitsOf 3 milli ++ [90]).dropWhile isDigit = [90] := by
    rw [List.dropWhile_append_of_pos (List.all_eq_true.mp digits)]
    rfl
  have some' : digitsOf 3 milli ≠ [] := by
    intro empty
    have length := length_digitsOf 3 milli
    rw [empty] at length
    cases length
  have three : (digitsOf 3 milli ++ [48, 48, 48]).take 3 = digitsOf 3 milli := by
    rw [List.take_append_of_le_length (length_digitsOf 3 milli).ge,
      List.take_of_length_le (length_digitsOf 3 milli).le]
  rw [seconds, mark_cons]
  dsimp only
  rw [field_digitsOf (by omega), Option.bind_some]
  dsimp only
  rw [mark_cons]
  dsimp only
  rw [whole, rest, three, if_neg some', digitsValue_digitsOf (by omega)]

example : toISOString 951826153007 = some (units "2000-02-29T12:09:13.007Z") := by decide +kernel

/-- **A time in a year of four digits is read back from its text.** -/
theorem datetime_toISOString {time : Int} {text : JsString} (written : toISOString time = some text)
    (fourDigits : 0 ≤ (dateOf time).year ∧ (dateOf time).year ≤ 9999) :
    datetime text = some time := by
  unfold toISOString at written
  split_ifs at written with bounded
  cases written
  obtain ⟨fromOne, toTwelve, fromFirst, toLast⟩ := dateOfDay_valid (time / msPerDay)
  have day := dayOfDate_dateOfDay (time / msPerDay)
  have days : daysInMonth (dateOf time).year (dateOf time).month ≤ 31 := by
    unfold daysInMonth
    split_ifs <;> decide
  change 1 ≤ (dateOf time).month at fromOne
  change (dateOf time).month ≤ 12 at toTwelve
  change 1 ≤ (dateOf time).day at fromFirst
  change (dateOf time).day ≤ daysInMonth (dateOf time).year (dateOf time).month at toLast
  change dayOfDate (dateOf time) = time / msPerDay at day
  have clock : timeOfDay time < 86400000 := by
    unfold timeOfDay msPerDay
    omega
  have year : ((dateOf time).year.toNat : Int) = (dateOf time).year :=
    Int.toNat_of_nonneg fourDigits.1
  have instant : (time / msPerDay * msPerDay + ((timeOfDay time / 3600000) * 3600000 +
      (timeOfDay time / 60000 % 60) * 60000 + (timeOfDay time / 1000 % 60) * 1000 +
      timeOfDay time % 1000 : Nat)) = time := by
    unfold timeOfDay msPerDay
    omega
  have yearRead := field_digitsOf (show (dateOf time).year.toNat < 10 ^ 4 by omega)
  have monthRead := field_digitsOf (show (dateOf time).month < 10 ^ 2 by omega)
  have dayRead := field_digitsOf (show (dateOf time).day < 10 ^ 2 by omega)
  have hourRead := field_digitsOf (show timeOfDay time / 3600000 < 10 ^ 2 by omega)
  have minuteRead := field_digitsOf (show timeOfDay time / 60000 % 60 < 10 ^ 2 by omega)
  have secondsRead := seconds_digitsOf (show timeOfDay time / 1000 % 60 < 100 by omega)
    (show timeOfDay time % 1000 < 1000 by omega)
  rw [yearText, if_pos fourDigits, datetime, yearRead]
  simp only [Option.bind_eq_bind, Option.bind_some, mark_cons, monthRead, dayRead, clockText,
    hourRead, minuteRead, secondsRead, year]
  rw [if_pos ⟨fromOne, toTwelve, fromFirst, toLast, by omega, by omega, by omega, trivial⟩, day,
    instant]

end IsoTime
