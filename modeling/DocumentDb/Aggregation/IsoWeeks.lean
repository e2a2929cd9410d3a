/-
Week 0 of an ISO year in `$dateFromParts`.

`SetResultForDateFromIsoParts` turns it into the last week of the year before, which
`GetIsoWeeksForYear` finds from the weekday of December 28. In the calendar of `to_date`
days are numbered from January 1 of year 1, a Monday, and week 1 is the one with January 4.
The result is the epoch in seconds, a double, times 1000 and cut, which may fall short of
the moment by a millisecond (`epochMillis_eq`).
-/
import DocumentDb.Lib.Rounding
import Mathlib.Tactic.Linarith

namespace DocumentDb.IsoWeeks

open Rounding

-- ==== the source

/-- The table of `GetDayOfWeek`. -/
def monthOffset : List Int := [0, 3, 2, 5, 0, 3, 5, 1, 4, 6, 2, 4]

/-- With C's division and remainder. -/
def getDayOfWeek (year : Int) (month : Nat) (day : Int) : Int :=
  let year := if month < 3 then year - 1 else year
  (year + year.tdiv 4 - year.tdiv 100 + year.tdiv 400 + monthOffset.getD (month - 1) 0
    + day).tmod 7

def getIsoWeeksForYear (year : Int) : Int :=
  let dowDec28 := getDayOfWeek year 12 28
  if dowDec28 = 1 then 53 else 52

/-- The result of an operation on `float8`. -/
def float8 (q : ℚ) : ℚ := toBits 53 (-1074) q

/-- Of a time: microseconds, to which `make_interval` rounds the seconds. -/
def getIntervalFromDatePart (hour minute second millis : Int) : Int :=
  let secondsAdjustedWithMillis := float8 (float8 second + float8 (float8 millis / 1000))
  hour * 3600000000 + minute * 60000000 + halfEven (float8 (secondsAdjustedWithMillis * 1000000))

/-- The milliseconds as a double: a thousand times the epoch of a timestamp. -/
def epochProduct (timestamp : Int) : ℚ := float8 (float8 (float8 timestamp / 1000000) * 1000)

/-- The result's `v_datetime`, of a timestamp in microseconds from 1970. -/
def epochMillis (timestamp : Int) : Int := truncate (epochProduct timestamp)

/-- The parts of the date and the time without the week, in the ranges of
`ValidateDatePart`. -/
structure IsoDateParts where
  isoWeekYear : Int
  isoDayOfWeek : Int
  hour : Int
  minute : Int
  second : Int
  millisecond : Int
  year_range : 1 ≤ isoWeekYear ∧ isoWeekYear ≤ 9999
  day_range : -32768 ≤ isoDayOfWeek ∧ isoDayOfWeek ≤ 32767
  hour_range : -32768 ≤ hour ∧ hour ≤ 32767
  minute_range : -32768 ≤ minute ∧ minute ≤ 32767
  second_range : |second| < 2 ^ 54
  millisecond_range : |millisecond| < 2 ^ 54

-- ==== the calendar

def january1 (year : Int) : Int :=
  365 * (year - 1) + (year - 1) / 4 - (year - 1) / 100 + (year - 1) / 400

def week1Monday (year : Int) : Int :=
  january1 year + 3 - (january1 year + 3) % 7

def isoWeeks (year : Int) : Int := (week1Monday (year + 1) - week1Monday year) / 7

/-- With the pattern `IYYY-IW-ID`, as a day's number. -/
def toDate (isoYear isoWeek isoDayOfWeek : Int) : Int :=
  week1Monday isoYear + 7 * (isoWeek - 1) + (isoDayOfWeek - 1)

/-- A leap year. -/
def IsLeap (year : Int) : Prop := year % 4 = 0 ∧ (year % 100 ≠ 0 ∨ year % 400 = 0)
  deriving Decidable

/-- A leap year that starts on a Thursday. -/
def LeapFromThursday (year : Int) : Prop := IsLeap year ∧ january1 year % 7 = 3
  deriving Decidable

-- ==== the result

namespace IsoDateParts

variable (parts : IsoDateParts)

def daysAdjust : Int :=
  if 7 < parts.isoDayOfWeek then parts.isoDayOfWeek - 7
  else if parts.isoDayOfWeek ≤ 0 then -(-parts.isoDayOfWeek + 7) else 0

/-- `SetResultForDateFromIsoParts` without a timezone. -/
def setResult (isoWeek : Int) : Int :=
  let (isoYearValue, isoWeekValue) :=
    if isoWeek = 0 then (parts.isoWeekYear - 1, getIsoWeeksForYear (parts.isoWeekYear - 1))
    else (parts.isoWeekYear, isoWeek)
  -- January 1 of 1970 is day 719162
  epochMillis ((toDate isoYearValue isoWeekValue parts.isoDayOfWeek + parts.daysAdjust - 719162)
      * 86400000000
    + getIntervalFromDatePart parts.hour parts.minute parts.second parts.millisecond)

/-- The moment of the parts in week 1, in milliseconds from 1970. -/
def moment : Int :=
  (toDate parts.isoWeekYear 1 parts.isoDayOfWeek + parts.daysAdjust - 719162) * 86400000
    + parts.hour * 3600000 + parts.minute * 60000 + parts.second * 1000 + parts.millisecond

end IsoDateParts

/-- The milliseconds that the product with 1000 falls short of a moment: one, in the
direction of the moment, if the double is nearer to 1970 than the moment. -/
def shortfall (moment : Int) : Int :=
  if |epochProduct (1000 * moment)| < |(moment : ℚ)| then moment.sign else 0

-- ==== doubles

theorem float8_of_bits {m f : Int} (hm : |m| < 2 ^ 53) (hf : -1074 ≤ f) :
    float8 ((m : ℚ) * 2 ^ f) = (m : ℚ) * 2 ^ f := toBits_of_bits hm hf

theorem float8_intCast {n : Int} (h : |n| < 2 ^ 53) : float8 n = n := by
  simpa using float8_of_bits h (f := 0) (by decide)

/-- A number up to a bound becomes a double that is near. -/
theorem float8_near {q b : ℚ} (hlow : -b ≤ q) (hhigh : q ≤ b) :
    q - (b / 2 ^ 53 + 1 / 2 ^ 60) ≤ float8 q ∧ float8 q ≤ q + (b / 2 ^ 53 + 1 / 2 ^ 60) := by
  have hunit : (2 : ℚ) ^ (-1074 - 1 : Int) ≤ 2 ^ (-60 : Int) :=
    zpow_le_zpow_right₀ (by norm_num) (by norm_num)
  have hbound : |float8 q - q| ≤ b / 2 ^ 53 + 1 / 2 ^ 60 :=
    calc |float8 q - q| ≤ |q| * 2 ^ (-53 : Int) + 2 ^ (-1074 - 1 : Int) :=
        abs_toBits_sub_le_relative
      _ ≤ b * 2 ^ (-53 : Int) + 2 ^ (-60 : Int) := by
        gcongr
        exact abs_le.2 ⟨hlow, hhigh⟩
      _ = b / 2 ^ 53 + 1 / 2 ^ 60 := by
        norm_num
        ring
  rw [abs_le] at hbound
  constructor <;> linarith

/-- The time of an interval is exact, if its seconds are not those of more than some
thirty years. -/
theorem getIntervalFromDatePart_eq {second millis : Int} (hsecond : |second| ≤ 10 ^ 9)
    (hmillis : |millis| ≤ 10 ^ 9) (hour minute : Int) :
    getIntervalFromDatePart hour minute second millis =
      1000 * (hour * 3600000 + minute * 60000 + second * 1000 + millis) := by
  obtain ⟨hs, hs'⟩ := abs_le.1 hsecond
  obtain ⟨hm, hm'⟩ := abs_le.1 hmillis
  have hs : -10 ^ 9 ≤ (second : ℚ) := by exact_mod_cast hs
  have hs' : (second : ℚ) ≤ 10 ^ 9 := by exact_mod_cast hs'
  have hm : -10 ^ 9 ≤ (millis : ℚ) := by exact_mod_cast hm
  have hm' : (millis : ℚ) ≤ 10 ^ 9 := by exact_mod_cast hm'
  have hexact : halfEven (float8 (float8 (float8 second + float8 (float8 millis / 1000)) * 1000000))
      = second * 1000000 + millis * 1000 := by
    rw [float8_intCast (by omega), float8_intCast (by omega)]
    have hpart := @float8_near (millis / 1000) (10 ^ 6) (by linarith) (by linarith)
    have hsum := @float8_near (second + float8 (millis / 1000)) (11 * 10 ^ 8) (by linarith)
      (by linarith)
    have hmicros := @float8_near (float8 (second + float8 (millis / 1000)) * 1000000)
      (12 * 10 ^ 14) (by linarith) (by linarith)
    apply halfEven_of_near
    rw [abs_lt]
    push_cast
    constructor <;> linarith
  rw [getIntervalFromDatePart, hexact]
  ring

/-- The product lies less than a millisecond from the moment. -/
theorem abs_epochProduct_sub_lt {moment : Int} (h : |moment| ≤ 2 ^ 49) :
    |epochProduct (1000 * moment) - moment| < 1 := by
  obtain ⟨hm, hm'⟩ := abs_le.1 h
  have hm : -2 ^ 49 ≤ (moment : ℚ) := by exact_mod_cast hm
  have hm' : (moment : ℚ) ≤ 2 ^ 49 := by exact_mod_cast hm'
  unfold epochProduct
  push_cast
  have hmicros := @float8_near (1000 * moment) (1000 * 2 ^ 49) (by linarith)
    (by linarith)
  have hseconds := @float8_near (float8 (1000 * moment) / 1000000) (2 ^ 40)
    (by linarith) (by linarith)
  have hproduct := @float8_near (float8 (float8 (1000 * moment) / 1000000) * 1000) (2 ^ 50)
    (by linarith) (by linarith)
  rw [abs_lt]
  constructor <;> linarith

/-- The result is the moment, less what the product falls short of it. -/
theorem epochMillis_eq {moment : Int} (h : |moment| ≤ 2 ^ 49) :
    epochMillis (1000 * moment) = moment - shortfall moment :=
  truncate_of_near (abs_epochProduct_sub_lt h)

theorem abs_shortfall_le (moment : Int) : |shortfall moment| ≤ 1 := by
  unfold shortfall
  split
  · rcases lt_trichotomy moment 0 with hneg | rfl | hpos
    · simp [Int.sign_eq_neg_one_of_neg hneg]
    · simp
    · simp [Int.sign_eq_one_of_pos hpos]
  · simp

/-- A moment of whole seconds has an exact product. -/
theorem shortfall_of_seconds {seconds : Int} (h : |seconds| ≤ 2 ^ 38) :
    shortfall (1000 * seconds) = 0 := by
  have hmicros : float8 ((1000 * (1000 * seconds) : Int) : ℚ) = 1000000 * seconds := by
    have hbits := @float8_of_bits (15625 * seconds) 6 (by rw [abs_mul]; norm_num; omega) (by decide)
    have heq : ((1000 * (1000 * seconds) : Int) : ℚ) = ((15625 * seconds : Int) : ℚ) * 2 ^ (6 : Int) := by
      push_cast
      ring
    rw [heq, hbits]
    push_cast
    ring
  have hproduct : epochProduct (1000 * (1000 * seconds)) = (1000 * seconds : Int) := by
    rw [epochProduct, hmicros, mul_div_cancel_left₀ _ (by norm_num), float8_intCast (by omega)]
    have := @float8_intCast (seconds * 1000) (by rw [abs_mul]; norm_num; omega)
    push_cast at this ⊢
    rw [this, mul_comm]
  rw [shortfall, hproduct, if_neg (lt_irrefl _)]

-- ==== weekdays and lengths of years

theorem getDayOfWeek_december28 {year : Int} (h : 0 ≤ year) :
    getDayOfWeek year 12 28 = (january1 (year + 1) - 3) % 7 := by
  have h4 : year.tdiv 4 = year / 4 := Int.tdiv_eq_ediv_of_nonneg h
  have h100 : year.tdiv 100 = year / 100 := Int.tdiv_eq_ediv_of_nonneg h
  have h400 : year.tdiv 400 = year / 400 := Int.tdiv_eq_ediv_of_nonneg h
  have hsum : 0 ≤ year + year / 4 - year / 100 + year / 400 + 4 + 28 := by omega
  show (year + year.tdiv 4 - year.tdiv 100 + year.tdiv 400 + 4 + 28).tmod 7 = _
  rw [h4, h100, h400, Int.tmod_eq_emod_of_nonneg hsum, january1, add_sub_cancel_right]
  omega

theorem january1_succ (year : Int) :
    january1 (year + 1) = january1 year + 365 + if IsLeap year then 1 else 0 := by
  unfold january1 IsLeap
  split_ifs <;> omega

/-- The weeks that the source counts lead from week 1 of a year to that of the next,
or one week less far. -/
theorem week1Monday_succ {year : Int} (h : 0 ≤ year) :
    week1Monday (year + 1) = week1Monday year + 7 * getIsoWeeksForYear year +
      if LeapFromThursday year then 7 else 0 := by
  have hsucc := january1_succ year
  rw [getIsoWeeksForYear, getDayOfWeek_december28 h, week1Monday, week1Monday]
  unfold LeapFromThursday
  by_cases hleap : IsLeap year
  · simp only [hleap, if_true, true_and] at hsucc ⊢
    split_ifs <;> omega
  · simp only [hleap, if_false, false_and] at hsucc ⊢
    split_ifs <;> omega

/-- The weeks are counted right unless a leap year starts on a Thursday. -/
theorem getIsoWeeksForYear_eq_iff {year : Int} (h : 0 ≤ year) :
    getIsoWeeksForYear year = isoWeeks year ↔ ¬LeapFromThursday year := by
  have hweeks := week1Monday_succ h
  unfold isoWeeks
  split_ifs at hweeks with hmissed
  · simp only [hmissed, not_true_eq_false, iff_false]
    omega
  · simp only [hmissed, not_false_eq_true, iff_true]
    omega

-- ==== week 0

namespace IsoDateParts

variable {parts : IsoDateParts} (hsecond : |parts.second| ≤ 10 ^ 9)
  (hmillis : |parts.millisecond| ≤ 10 ^ 9)

include hsecond hmillis

theorem abs_moment_le : |parts.moment| ≤ 2 ^ 48 := by
  obtain ⟨hyear, hyear'⟩ := parts.year_range
  obtain ⟨hday, hday'⟩ := parts.day_range
  obtain ⟨hhour, hhour'⟩ := parts.hour_range
  obtain ⟨hminute, hminute'⟩ := parts.minute_range
  rw [abs_le] at *
  unfold moment daysAdjust toDate week1Monday january1
  split_ifs <;> omega

/-- Week 1 gives the moment of its parts. -/
theorem setResult_one : parts.setResult 1 = parts.moment - shortfall parts.moment := by
  have hmoment := abs_moment_le hsecond hmillis
  rw [← epochMillis_eq (by omega)]
  simp only [setResult, one_ne_zero, if_false, getIntervalFromDatePart_eq hsecond hmillis, moment]
  ring_nf

/-- Week 0 gives a moment one week before, or two if the last week of the year
before is missed. -/
theorem setResult_zero {weeks : Int}
    (hmissed : weeks = if LeapFromThursday (parts.isoWeekYear - 1) then 2 else 1) :
    parts.setResult 0 =
      parts.moment - 604800000 * weeks - shortfall (parts.moment - 604800000 * weeks) := by
  have hmoment := abs_le.1 (abs_moment_le hsecond hmillis)
  have hweeks := week1Monday_succ (show 0 ≤ parts.isoWeekYear - 1 by linarith [parts.year_range.1])
  rw [sub_add_cancel] at hweeks
  have hrange : |parts.moment - 604800000 * weeks| ≤ 2 ^ 49 := by
    rw [abs_le, hmissed]
    split_ifs <;> omega
  rw [← epochMillis_eq hrange]
  simp only [setResult, if_true, getIntervalFromDatePart_eq hsecond hmillis, moment, toDate]
  rw [hweeks, hmissed]
  split_ifs <;> ring_nf

end IsoDateParts

/-- The parts of a date without a time. -/
def dateParts (isoWeekYear isoDayOfWeek : Int) (hyear : 1 ≤ isoWeekYear ∧ isoWeekYear ≤ 9999)
    (hday : -32768 ≤ isoDayOfWeek ∧ isoDayOfWeek ≤ 32767) : IsoDateParts :=
  ⟨isoWeekYear, isoDayOfWeek, 0, 0, 0, 0, hyear, hday, by decide, by decide, by decide, by decide⟩

end DocumentDb.IsoWeeks
