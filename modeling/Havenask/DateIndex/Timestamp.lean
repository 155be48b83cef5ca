import Mathlib.Data.List.Basic
import Mathlib.Tactic.IntervalCases
import Mathlib.Tactic.Linarith
import Mathlib.Tactic.Ring

/-!
# Timestamps and calendar fields

`util/TimestampUtil.cpp`: `ConvertToTM` splits a number of milliseconds since 1970 into calendar
fields, `ConvertToTimestamp` puts them together again.  Both count a leap year every four years and
look the months up in tables, which is right from 1970 to the first millisecond of 2100
(`_MAX_TIME_SUPPORT`); later times are taken for that one.

The calendar itself is stated apart from the code, by the lengths of years and months
(`yearLength`, `monthLength`): the fields of `ConvertToTM` are a date and time of the calendar, and it
is the right one (`convertToTM_valid`, `convertToTM_spec`).  The fields packed into one number,
the year on top, are ordered as the timestamps are (`timestamp_le_iff`).
-/

namespace Havenask

namespace TimestampUtil

/-- `TM_Structure`; the year counts from 1970, months and days from 1. -/
structure TM where
  year : ℕ
  month : ℕ
  day : ℕ
  hour : ℕ
  minute : ℕ
  second : ℕ
  millisecond : ℕ
  deriving DecidableEq

def fourYearSec : ℕ := 126230400

def yearSec : ℕ := 31536000

def daySec : ℕ := 86400

/-- `_MAX_TIME_SUPPORT`, 2100-01-01 00:00:00. -/
def maxTimeSupport : ℕ := 4102444800000

/-- `_days`: the days of a year up to the end of each month. -/
def days : List ℕ := [31, 59, 90, 120, 151, 181, 212, 243, 273, 304, 334, 365]

def lpDays : List ℕ := [31, 60, 91, 121, 152, 182, 213, 244, 274, 305, 335, 366]

/-- `_dayToMonth`: the month, from 0, of each day of a year. -/
def dayToMonth : List ℕ :=
  [0, 0, 0, 0, 0, 0, 0, 0, 0, 0, 0, 0, 0, 0, 0, 0, 0, 0, 0, 0, 0, 0, 0, 0, 0, 0, 0, 0, 0, 0, 0, 1,
    1, 1, 1, 1, 1, 1, 1, 1, 1, 1, 1, 1, 1, 1, 1, 1, 1, 1, 1, 1, 1, 1, 1, 1, 1, 1, 1, 2, 2, 2, 2,
    2, 2, 2, 2, 2, 2, 2, 2, 2, 2, 2, 2, 2, 2, 2, 2, 2, 2, 2, 2, 2, 2, 2, 2, 2, 2, 2, 3, 3, 3, 3,
    3, 3, 3, 3, 3, 3, 3, 3, 3, 3, 3, 3, 3, 3, 3, 3, 3, 3, 3, 3, 3, 3, 3, 3, 3, 3, 4, 4, 4, 4, 4,
    4, 4, 4, 4, 4, 4, 4, 4, 4, 4, 4, 4, 4, 4, 4, 4, 4, 4, 4, 4, 4, 4, 4, 4, 4, 4, 5, 5, 5, 5, 5,
    5, 5, 5, 5, 5, 5, 5, 5, 5, 5, 5, 5, 5, 5, 5, 5, 5, 5, 5, 5, 5, 5, 5, 5, 5, 6, 6, 6, 6, 6, 6,
    6, 6, 6, 6, 6, 6, 6, 6, 6, 6, 6, 6, 6, 6, 6, 6, 6, 6, 6, 6, 6, 6, 6, 6, 6, 7, 7, 7, 7, 7, 7,
    7, 7, 7, 7, 7, 7, 7, 7, 7, 7, 7, 7, 7, 7, 7, 7, 7, 7, 7, 7, 7, 7, 7, 7, 7, 8, 8, 8, 8, 8, 8,
    8, 8, 8, 8, 8, 8, 8, 8, 8, 8, 8, 8, 8, 8, 8, 8, 8, 8, 8, 8, 8, 8, 8, 8, 9, 9, 9, 9, 9, 9, 9,
    9, 9, 9, 9, 9, 9, 9, 9, 9, 9, 9, 9, 9, 9, 9, 9, 9, 9, 9, 9, 9, 9, 9, 9, 10, 10, 10, 10, 10,
    10, 10, 10, 10, 10, 10, 10, 10, 10, 10, 10, 10, 10, 10, 10, 10, 10, 10, 10, 10, 10, 10, 10,
    10, 10, 11, 11, 11, 11, 11, 11, 11, 11, 11, 11, 11, 11, 11, 11, 11, 11, 11, 11, 11, 11, 11,
    11, 11, 11, 11, 11, 11, 11, 11, 11, 11, 0]

def lpDayToMonth : List ℕ :=
  [0, 0, 0, 0, 0, 0, 0, 0, 0, 0, 0, 0, 0, 0, 0, 0, 0, 0, 0, 0, 0, 0, 0, 0, 0, 0, 0, 0, 0, 0, 0, 1,
    1, 1, 1, 1, 1, 1, 1, 1, 1, 1, 1, 1, 1, 1, 1, 1, 1, 1, 1, 1, 1, 1, 1, 1, 1, 1, 1, 1, 2, 2, 2,
    2, 2, 2, 2, 2, 2, 2, 2, 2, 2, 2, 2, 2, 2, 2, 2, 2, 2, 2, 2, 2, 2, 2, 2, 2, 2, 2, 2, 3, 3, 3,
    3, 3, 3, 3, 3, 3, 3, 3, 3, 3, 3, 3, 3, 3, 3, 3, 3, 3, 3, 3, 3, 3, 3, 3, 3, 3, 3, 4, 4, 4, 4,
    4, 4, 4, 4, 4, 4, 4, 4, 4, 4, 4, 4, 4, 4, 4, 4, 4, 4, 4, 4, 4, 4, 4, 4, 4, 4, 4, 5, 5, 5, 5,
    5, 5, 5, 5, 5, 5, 5, 5, 5, 5, 5, 5, 5, 5, 5, 5, 5, 5, 5, 5, 5, 5, 5, 5, 5, 5, 6, 6, 6, 6, 6,
    6, 6, 6, 6, 6, 6, 6, 6, 6, 6, 6, 6, 6, 6, 6, 6, 6, 6, 6, 6, 6, 6, 6, 6, 6, 6, 7, 7, 7, 7, 7,
    7, 7, 7, 7, 7, 7, 7, 7, 7, 7, 7, 7, 7, 7, 7, 7, 7, 7, 7, 7, 7, 7, 7, 7, 7, 7, 8, 8, 8, 8, 8,
    8, 8, 8, 8, 8, 8, 8, 8, 8, 8, 8, 8, 8, 8, 8, 8, 8, 8, 8, 8, 8, 8, 8, 8, 8, 9, 9, 9, 9, 9, 9,
    9, 9, 9, 9, 9, 9, 9, 9, 9, 9, 9, 9, 9, 9, 9, 9, 9, 9, 9, 9, 9, 9, 9, 9, 9, 10, 10, 10, 10, 10,
    10, 10, 10, 10, 10, 10, 10, 10, 10, 10, 10, 10, 10, 10, 10, 10, 10, 10, 10, 10, 10, 10, 10,
    10, 10, 11, 11, 11, 11, 11, 11, 11, 11, 11, 11, 11, 11, 11, 11, 11, 11, 11, 11, 11, 11, 11,
    11, 11, 11, 11, 11, 11, 11, 11, 11, 11]

/-! ## The two conversions -/

/-- "Determine which year of the interval": the year, the seconds left in it, and whether it is a leap
year. -/
def yearOfInterval (tmptim caltim : ℕ) : ℕ × ℕ × Bool :=
  if yearSec ≤ caltim then
    let caltim := caltim - yearSec
    if yearSec ≤ caltim then
      let caltim := caltim - yearSec
      if yearSec + daySec ≤ caltim then (tmptim + 3, caltim - (yearSec + daySec), false)
      else (tmptim + 2, caltim, true)
    else (tmptim + 1, caltim, false)
  else (tmptim, caltim, false)

/-- The month and the day of the month of a day of a year, both from 1, by the month from 0. -/
def dateInMonth (islpyr : Bool) (yday month : ℕ) : ℕ × ℕ :=
  let mdays := if islpyr then lpDays else days
  let day := yday - if month ≠ 0 then mdays.getD (month - 1) 0 else 0
  (month + 1, day + 1)

def monthOfDay (islpyr : Bool) (yday : ℕ) : ℕ × ℕ :=
  let mydays := if islpyr then lpDayToMonth else dayToMonth
  dateInMonth islpyr yday (mydays.getD yday 0)

/-- The fields of a time `caltim` seconds after the start of `year`. -/
def fieldsInYear (year caltim : ℕ) (islpyr : Bool) (millisecond : ℕ) : TM :=
  let yday := caltim / daySec
  let caltim := caltim - yday * daySec
  let (month, day) := monthOfDay islpyr yday
  let hour := caltim / 3600
  let caltim := caltim - hour * 3600
  let minute := caltim / 60
  { year, month, day, hour, minute, second := caltim - minute * 60, millisecond }

def convertToTM (timp : ℕ) : TM :=
  let timp := if maxTimeSupport < timp then maxTimeSupport else timp
  let caltim := timp / 1000
  let tmptim := caltim / fourYearSec
  let year := yearOfInterval (tmptim * 4) (caltim - tmptim * fourYearSec)
  fieldsInYear year.1 year.2.1 year.2.2 (timp % 1000)

/-- `ConvertToTimestamp`, which refuses years after 2100. -/
def convertToTimestamp (tm : TM) : Option ℕ :=
  if 130 < tm.year then none
  else
    let isLeapYear := decide ((tm.year + 2) % 4 = 0)
    let mdays := if isLeapYear then lpDays else days
    let passMonDays := if tm.month ≤ 1 then 0 else mdays.getD (tm.month - 2) 0
    let leapModifyDays := (tm.year + 1) / 4
    let inDaySec := tm.hour * 3600 + tm.minute * 60 + tm.second
    let passYearSecs := tm.year * yearSec
    let passDaySec := (passMonDays + leapModifyDays + tm.day - 1) * daySec
    some ((passYearSecs + passDaySec + inDaySec) * 1000 + tm.millisecond)

/-! ## The calendar -/

/-- Every fourth year, of the centuries only every fourth; years count from 1970. -/
def isLeap (year : ℕ) : Bool :=
  let adYear := 1970 + year
  decide (adYear % 4 = 0) && (decide (adYear % 100 ≠ 0) || decide (adYear % 400 = 0))

def yearLength (year : ℕ) : ℕ := if isLeap year then 366 else 365

def monthLength (leap : Bool) (month : ℕ) : ℕ :=
  match month with
  | 2 => if leap then 29 else 28
  | 4 | 6 | 9 | 11 => 30
  | _ => 31

def daysBeforeYear (year : ℕ) : ℕ := ((List.range year).map yearLength).sum

def daysBeforeMonth (leap : Bool) (month : ℕ) : ℕ := ((List.range' 1 (month - 1)).map (monthLength leap)).sum

/-- A date and time of the calendar, not after 2100. -/
structure TM.Valid (tm : TM) : Prop where
  year : tm.year ≤ 130
  month : 1 ≤ tm.month ∧ tm.month ≤ 12
  day : 1 ≤ tm.day ∧ tm.day ≤ monthLength (isLeap tm.year) tm.month
  hour : tm.hour < 24
  minute : tm.minute < 60
  second : tm.second < 60
  millisecond : tm.millisecond < 1000

/-- The days from 1970-01-01 to a date. -/
def TM.dayNumber (tm : TM) : ℕ := daysBeforeYear tm.year + daysBeforeMonth (isLeap tm.year) tm.month + (tm.day - 1)

/-- The milliseconds from 1970 to a date and time. -/
def TM.timestamp (tm : TM) : ℕ :=
  (((tm.dayNumber * 24 + tm.hour) * 60 + tm.minute) * 60 + tm.second) * 1000 + tm.millisecond

lemma daysBeforeYear_succ (year : ℕ) : daysBeforeYear (year + 1) = daysBeforeYear year + yearLength year := by
  simp [daysBeforeYear, List.range_succ]

variable {year : ℕ}

/-- Until 2100 the fourth years are the leap years. -/
lemma isLeap_eq (h : year < 130) : isLeap year = decide (year % 4 = 2) := by
  rw [isLeap, Bool.eq_iff_iff]
  simp only [Bool.and_eq_true, Bool.or_eq_true, decide_eq_true_eq]
  omega

lemma yearLength_eq (h : year < 130) : yearLength year = if year % 4 = 2 then 366 else 365 := by
  simp [yearLength, isLeap_eq h]

lemma daysBeforeYear_eq (h : year ≤ 130) : daysBeforeYear year = 365 * year + (year + 1) / 4 := by
  induction year with
  | zero => rfl
  | succ year ih =>
    rw [daysBeforeYear_succ, ih (by omega), yearLength_eq (by omega)]
    split_ifs <;> omega

variable (leap : Bool)

lemma daysBeforeMonth_succ {month : ℕ} (h : 1 ≤ month) :
    daysBeforeMonth leap (month + 1) = daysBeforeMonth leap month + monthLength leap month := by
  obtain ⟨m, rfl⟩ : ∃ m, month = m + 1 := ⟨month - 1, by omega⟩
  simp [daysBeforeMonth, List.range'_1_concat, Nat.add_comm]

lemma daysBeforeMonth_mono {month month' : ℕ} (h : 1 ≤ month) (hle : month ≤ month') :
    daysBeforeMonth leap month ≤ daysBeforeMonth leap month' := by
  induction hle with
  | refl => exact le_rfl
  | @step month' hle ih =>
    have hpos : 1 ≤ month' := h.trans hle
    rw [Nat.succ_eq_add_one, daysBeforeMonth_succ leap hpos]
    omega

lemma daysBeforeYear_mono {year' : ℕ} (hle : year ≤ year') : daysBeforeYear year ≤ daysBeforeYear year' := by
  induction hle with
  | refl => exact le_rfl
  | @step year' hle ih =>
    rw [Nat.succ_eq_add_one, daysBeforeYear_succ]
    omega

/-- The months of a year add up to the year. -/
lemma daysBeforeMonth_end (year : ℕ) : daysBeforeMonth (isLeap year) 13 = yearLength year := by
  rw [yearLength]
  cases isLeap year <;> rfl

/-! ## What the conversions compute -/

/-- A month and a day of it, both from 1, that are the day `yday` of a year. -/
def IsDate (leap : Bool) (yday : ℕ) (date : ℕ × ℕ) : Prop :=
  (1 ≤ date.1 ∧ date.1 ≤ 12) ∧ (1 ≤ date.2 ∧ date.2 ≤ monthLength leap date.1)
    ∧ daysBeforeMonth leap date.1 + (date.2 - 1) = yday

instance decidableIsDate (leap : Bool) (yday : ℕ) (date : ℕ × ℕ) : Decidable (IsDate leap yday date) :=
  inferInstanceAs (Decidable (_ ∧ _))

lemma dayToMonth_isDate : ∀ p ∈ (dayToMonth.take 365).zipIdx, IsDate false p.2 (dateInMonth false p.2 p.1) := by
  decide +kernel

lemma lpDayToMonth_isDate : ∀ p ∈ (lpDayToMonth.take 366).zipIdx, IsDate true p.2 (dateInMonth true p.2 p.1) := by
  decide +kernel

lemma getD_mem_zipIdx {table : List ℕ} {n i : ℕ} (hi : i < n) (hn : n ≤ table.length) :
    (table.getD i 0, i) ∈ (table.take n).zipIdx := by
  have hlt : i < table.length := by omega
  rw [List.mem_zipIdx_iff_getElem?, List.getElem?_take_of_lt hi, List.getD_eq_getElem?_getD,
    List.getElem?_eq_getElem hlt, Option.getD_some]

lemma monthOfDay_isDate {yday : ℕ} (h : yday < if leap then 366 else 365) :
    IsDate leap yday (monthOfDay leap yday) := by
  cases leap with
  | false => exact dayToMonth_isDate _ (getD_mem_zipIdx h (by decide +kernel))
  | true => exact lpDayToMonth_isDate _ (getD_mem_zipIdx h (by decide +kernel))

lemma yearOfInterval_spec {q c : ℕ} (hc : c < fourYearSec) :
    ∃ j s, yearOfInterval (q * 4) c = (q * 4 + j, s, decide (j = 2)) ∧ j < 4
    ∧ c = (365 * j + (j + 1) / 4) * daySec + s
    ∧ s < (if j = 2 then 366 else 365) * daySec := by
  have hfour : fourYearSec = 1461 * daySec := rfl
  have hyear : yearSec = 365 * daySec := rfl
  rw [hfour] at hc
  simp only [yearOfInterval, hyear]
  by_cases h₁ : 365 * daySec ≤ c
  · by_cases h₂ : 365 * daySec ≤ c - 365 * daySec
    · by_cases h₃ : 365 * daySec + daySec ≤ c - 365 * daySec - 365 * daySec
      · refine ⟨3, c - 365 * daySec - 365 * daySec - (365 * daySec + daySec), ?_, by omega, by omega,
          by simp; omega⟩
        rw [if_pos h₁, if_pos h₂, if_pos h₃]
        rfl
      · refine ⟨2, c - 365 * daySec - 365 * daySec, ?_, by omega, by omega, by simp; omega⟩
        rw [if_pos h₁, if_pos h₂, if_neg h₃]
        rfl
    · refine ⟨1, c - 365 * daySec, ?_, by omega, by omega, by simp; omega⟩
      rw [if_pos h₁, if_neg h₂]
      rfl
  · refine ⟨0, c, ?_, by omega, by omega, by simp; omega⟩
    rw [if_neg h₁]
    rfl

lemma fieldsInYear_eq (year s : ℕ) (islpyr : Bool) (millisecond : ℕ) :
    fieldsInYear year s islpyr millisecond = ⟨year, (monthOfDay islpyr (s / 86400)).1,
      (monthOfDay islpyr (s / 86400)).2, s % 86400 / 3600, s % 3600 / 60, s % 60, millisecond⟩ := by
  have h₁ : s - s / 86400 * 86400 = s % 86400 := by omega
  have h₂ : s % 86400 - s % 86400 / 3600 * 3600 = s % 3600 := by omega
  have h₃ : s % 3600 - s % 3600 / 60 * 60 = s % 60 := by omega
  simp only [fieldsInYear, daySec, h₁, h₂, h₃]

/-- The fields of a supported time, by the four-year interval `q`, its year `j` and the second `s` of
that year. -/
lemma convertToTM_eq {t : ℕ} (ht : t ≤ maxTimeSupport) :
    ∃ q j s, t / 1000 = (1461 * q + 365 * j + (j + 1) / 4) * 86400 + s ∧ j < 4
    ∧ s < (if j = 2 then 366 else 365) * 86400
    ∧ convertToTM t = ⟨q * 4 + j, (monthOfDay (decide (j = 2)) (s / 86400)).1,
      (monthOfDay (decide (j = 2)) (s / 86400)).2, s % 86400 / 3600, s % 3600 / 60, s % 60, t % 1000⟩ := by
  have hfour : fourYearSec = 1461 * 86400 := rfl
  have hclamp : (if maxTimeSupport < t then maxTimeSupport else t) = t := if_neg (not_lt.mpr ht)
  have hsplit := Nat.div_add_mod' (t / 1000) fourYearSec
  have hrest : t / 1000 - t / 1000 / fourYearSec * fourYearSec = t / 1000 % fourYearSec := by omega
  obtain ⟨j, s, hyear, hj, hc, hs⟩ := yearOfInterval_spec (q := t / 1000 / fourYearSec)
    (Nat.mod_lt (t / 1000) (by decide : 0 < fourYearSec))
  refine ⟨t / 1000 / fourYearSec, j, s, ?_, hj, hs, ?_⟩
  · rw [hc] at hsplit
    have hday : daySec = 86400 := rfl
    rw [hday] at hsplit
    generalize t / 1000 / fourYearSec = q at *
    rw [hfour] at hsplit
    omega
  · simp only [convertToTM, hclamp, hrest, hyear, fieldsInYear_eq]

/-- **The fields are the date and time of the timestamp.** -/
theorem convertToTM_spec {t : ℕ} (ht : t ≤ maxTimeSupport) :
    (convertToTM t).Valid ∧ (convertToTM t).timestamp = t := by
  obtain ⟨q, j, s, hsec, hj, hs, htm⟩ := convertToTM_eq ht
  have hmax : t / 1000 ≤ 4102444800 := Nat.div_le_of_le_mul ht
  have hlen : s < 366 * 86400 := by
    refine lt_of_lt_of_le hs (Nat.mul_le_mul_right _ ?_)
    split_ifs <;> omega
  have hyear : q * 4 + j ≤ 130 := by omega
  have hyday : s / 86400 < if j = 2 then 366 else 365 := by
    rw [Nat.div_lt_iff_lt_mul (by decide)]
    exact hs
  have hdate : (1 ≤ (convertToTM t).month ∧ (convertToTM t).month ≤ 12)
      ∧ (1 ≤ (convertToTM t).day
        ∧ (convertToTM t).day ≤ monthLength (isLeap (q * 4 + j)) (convertToTM t).month)
      ∧ daysBeforeMonth (isLeap (q * 4 + j)) (convertToTM t).month + ((convertToTM t).day - 1)
        = s / 86400 := by
    rw [htm]
    by_cases hlast : q * 4 + j = 130
    · -- 2100 is not a leap year of the calendar, but only its first day is supported
      have hzero : s = 0 := by omega
      have hj2 : j = 2 := by omega
      subst hzero hj2
      rw [hlast]
      exact monthOfDay_isDate false (by decide : 0 < if false then 366 else 365)
    · have hleap : isLeap (q * 4 + j) = decide (j = 2) := by
        rw [isLeap_eq (by omega), decide_eq_decide]
        omega
      rw [hleap]
      exact monthOfDay_isDate _ (by simpa using hyday)
  have hnumber : (convertToTM t).dayNumber = 1461 * q + 365 * j + (j + 1) / 4 + s / 86400 := by
    have hy : (convertToTM t).year = q * 4 + j := by rw [htm]
    rw [TM.dayNumber, hy, Nat.add_assoc, hdate.2.2, daysBeforeYear_eq hyear]
    omega
  obtain ⟨hmonth, hdays, -⟩ := hdate
  constructor
  · refine ⟨?_, hmonth, ?_, ?_, ?_, ?_, ?_⟩
    · rw [htm]
      exact hyear
    · rw [htm] at hdays ⊢
      exact hdays
    all_goals
      rw [htm]
      dsimp only
      omega
  · rw [TM.timestamp, hnumber, htm]
    dsimp only
    omega

/-- Later times are taken for the last one supported. -/
lemma convertToTM_valid (t : ℕ) : (convertToTM t).Valid := by
  by_cases ht : t ≤ maxTimeSupport
  · exact (convertToTM_spec ht).1
  have hsame : convertToTM t = convertToTM maxTimeSupport := by
    simp only [convertToTM, if_pos (not_le.mp ht), lt_irrefl, if_false]
  rw [hsame]
  exact (convertToTM_spec le_rfl).1

lemma convertToTimestamp_eq {tm : TM} (htm : tm.Valid) (hyear : tm.year < 130) :
    convertToTimestamp tm = some tm.timestamp := by
  have hmonth : (if tm.month ≤ 1 then 0
        else (if decide ((tm.year + 2) % 4 = 0) = true then lpDays else days).getD (tm.month - 2) 0)
      = daysBeforeMonth (isLeap tm.year) tm.month := by
    have hleap : decide ((tm.year + 2) % 4 = 0) = isLeap tm.year := by
      rw [isLeap_eq hyear, decide_eq_decide]
      omega
    rw [hleap]
    obtain ⟨hlo, hhi⟩ := htm.month
    generalize tm.month = m at *
    cases isLeap tm.year <;> interval_cases m <;> rfl
  have hd := htm.day.1
  have hlt : ¬ 130 < tm.year := by omega
  simp only [convertToTimestamp, if_neg hlt, hmonth, TM.timestamp, TM.dayNumber,
    daysBeforeYear_eq htm.year, yearSec, daySec, Option.some.injEq]
  omega

/-- **Round trip**, up to the end of 2099. -/
theorem convertToTimestamp_convertToTM {t : ℕ} (ht : t < maxTimeSupport) :
    convertToTimestamp (convertToTM t) = some t := by
  obtain ⟨hvalid, htime⟩ := convertToTM_spec ht.le
  have hyear : (convertToTM t).year < 130 := by
    by_contra hge
    have h130 : (convertToTM t).year = 130 := le_antisymm hvalid.year (not_lt.mp hge)
    have hnumber : 47482 ≤ (convertToTM t).dayNumber := by
      rw [TM.dayNumber, h130, daysBeforeYear_eq le_rfl]
      omega
    rw [TM.timestamp, maxTimeSupport] at *
    omega
  rw [convertToTimestamp_eq hvalid hyear, htime]

/-! ## Order -/

/-- The fields in one number, as `DateTerm` packs them. -/
def TM.packed (tm : TM) : ℕ :=
  tm.year * 2 ^ 36 + tm.month * 2 ^ 32 + tm.day * 2 ^ 27 + tm.hour * 2 ^ 22 + tm.minute * 2 ^ 16
    + tm.second * 2 ^ 10 + tm.millisecond

lemma monthLength_le (month : ℕ) : monthLength leap month ≤ 31 := by
  unfold monthLength
  split <;> cases leap <;> simp

lemma TM.Valid.day_le {tm : TM} (h : tm.Valid) : tm.day ≤ 31 := h.day.2.trans (monthLength_le _ _)

lemma TM.Valid.packed_lt {tm : TM} (h : tm.Valid) : tm.packed < 131 * 2 ^ 36 := by
  obtain ⟨hyear, hmonth, hday, hhour, hminute, hsecond, hms⟩ := h
  have := monthLength_le (isLeap tm.year) tm.month
  unfold TM.packed
  omega

lemma TM.Valid.lt_nextMonth {tm : TM} (h : tm.Valid) :
    tm.dayNumber < daysBeforeYear tm.year + daysBeforeMonth (isLeap tm.year) (tm.month + 1) := by
  have hday := h.day
  rw [daysBeforeMonth_succ _ h.month.1, TM.dayNumber]
  omega

lemma TM.Valid.lt_nextYear {tm : TM} (h : tm.Valid) : tm.dayNumber < daysBeforeYear (tm.year + 1) := by
  have hmonth := daysBeforeMonth_mono (isLeap tm.year) (by omega : 1 ≤ tm.month + 1)
    (by have := h.month.2; omega : tm.month + 1 ≤ 13)
  have hlt := h.lt_nextMonth
  rw [daysBeforeMonth_end] at hmonth
  rw [daysBeforeYear_succ]
  omega

variable {tm tm' : TM}

lemma dayNumber_lt (h : tm.Valid) (hlt : tm.year < tm'.year ∨ tm.year = tm'.year
    ∧ (tm.month < tm'.month ∨ tm.month = tm'.month ∧ tm.day < tm'.day)) : tm.dayNumber < tm'.dayNumber := by
  rcases hlt with hyear | ⟨hyear, hmonth | ⟨hmonth, hday⟩⟩
  · calc tm.dayNumber < daysBeforeYear (tm.year + 1) := h.lt_nextYear
      _ ≤ daysBeforeYear tm'.year := daysBeforeYear_mono hyear
      _ ≤ tm'.dayNumber := by
          rw [TM.dayNumber]
          omega
  · have hle := daysBeforeMonth_mono (isLeap tm'.year) (by omega : 1 ≤ tm.month + 1) hmonth
    have hlt := h.lt_nextMonth
    rw [hyear] at hlt
    calc tm.dayNumber
        < daysBeforeYear tm'.year + daysBeforeMonth (isLeap tm'.year) (tm.month + 1) := hlt
      _ ≤ tm'.dayNumber := by
          rw [TM.dayNumber]
          omega
  · have hpos := h.day.1
    rw [TM.dayNumber, TM.dayNumber, hyear, hmonth]
    omega

/-- The packed date and time of day. -/
def TM.date (tm : TM) : ℕ := tm.year * 2 ^ 9 + tm.month * 2 ^ 5 + tm.day

def TM.timeOfDay (tm : TM) : ℕ := tm.hour * 2 ^ 22 + tm.minute * 2 ^ 16 + tm.second * 2 ^ 10 + tm.millisecond

lemma TM.packed_eq (tm : TM) : tm.packed = tm.date * 2 ^ 27 + tm.timeOfDay := by
  simp only [TM.packed, TM.date, TM.timeOfDay]
  ring

lemma TM.Valid.timeOfDay_lt {tm : TM} (h : tm.Valid) : tm.timeOfDay < 2 ^ 27 := by
  obtain ⟨-, -, -, hhour, hminute, hsecond, hms⟩ := h
  unfold TM.timeOfDay
  omega

lemma dayNumber_lt_of_date_lt (h : tm.Valid) (h' : tm'.Valid)
    (hlt : tm.date < tm'.date) : tm.dayNumber < tm'.dayNumber := by
  have hd := h.day_le
  have hd' := h'.day_le
  have hm := h.month.2
  have hm' := h'.month.2
  unfold TM.date at hlt
  exact dayNumber_lt h (by omega)

lemma dayNumber_eq_of_date_eq (h : tm.Valid) (h' : tm'.Valid)
    (heq : tm.date = tm'.date) : tm.dayNumber = tm'.dayNumber := by
  have hd := h.day_le
  have hd' := h'.day_le
  have hm := h.month.2
  have hm' := h'.month.2
  unfold TM.date at heq
  have hyear : tm.year = tm'.year := by omega
  have hmonth : tm.month = tm'.month := by omega
  have hday : tm.day = tm'.day := by omega
  rw [TM.dayNumber, TM.dayNumber, hyear, hmonth, hday]

def TM.inDay (tm : TM) : ℕ := ((tm.hour * 60 + tm.minute) * 60 + tm.second) * 1000 + tm.millisecond

lemma TM.timestamp_eq (tm : TM) : tm.timestamp = tm.dayNumber * 86400000 + tm.inDay := by
  simp only [TM.timestamp, TM.inDay]
  ring

lemma TM.Valid.inDay_lt {tm : TM} (h : tm.Valid) : tm.inDay < 86400000 := by
  obtain ⟨-, -, -, hhour, hminute, hsecond, hms⟩ := h
  unfold TM.inDay
  omega

lemma inDay_le_iff (h : tm.Valid) (h' : tm'.Valid) : tm.inDay ≤ tm'.inDay ↔ tm.timeOfDay ≤ tm'.timeOfDay := by
  obtain ⟨-, -, -, hhour, hminute, hsecond, hms⟩ := h
  obtain ⟨-, -, -, hhour', hminute', hsecond', hms'⟩ := h'
  unfold TM.inDay TM.timeOfDay
  omega

/-- **Packed dates are ordered as timestamps are.** -/
theorem timestamp_le_iff (h : tm.Valid) (h' : tm'.Valid) : tm.timestamp ≤ tm'.timestamp ↔ tm.packed ≤ tm'.packed := by
  have htime := h.timeOfDay_lt
  have htime' := h'.timeOfDay_lt
  have hday := h.inDay_lt
  have hday' := h'.inDay_lt
  rw [TM.timestamp_eq, TM.timestamp_eq, TM.packed_eq, TM.packed_eq]
  rcases lt_trichotomy tm.date tm'.date with hlt | heq | hgt
  · have := dayNumber_lt_of_date_lt h h' hlt
    omega
  · have := dayNumber_eq_of_date_eq h h' heq
    have := inDay_le_iff h h'
    omega
  · have := dayNumber_lt_of_date_lt h' h hgt
    omega

end TimestampUtil

end Havenask
