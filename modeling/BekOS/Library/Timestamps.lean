import BekOS.Lib.Calendar
import BekOS.Library.Time
import Mathlib.Tactic.IntervalCases

/-!
# Timestamps and dates

`from_decomposed` is the number of the date and the second of the day, and so exact and
monotone.  `decompose` takes each year for a mean one, of 365.2425 days, and counts the
days of a month from 0.
-/

namespace BekOS

open Calendar

namespace DecomposedTime

/-- The second of the day. -/
def secondOfDay (time : DecomposedTime) : ℕ := time.hour * 3600 + time.minute * 60 + time.second

/-- A date of the calendar, and a time of the day. -/
structure IsValid (time : DecomposedTime) : Prop where
  month : 1 ≤ time.month ∧ time.month ≤ 12
  day : 1 ≤ time.day ∧ time.day ≤ monthLength time.year time.month
  hour : time.hour < 24
  minute : time.minute < 60
  second : time.second < 60

/-- The date. -/
def IsValid.date {time : DecomposedTime} (valid : time.IsValid) : Date :=
  ⟨time.year, time.month, time.day, valid.month, valid.day⟩

/-- The time is earlier. -/
def Before (time other : DecomposedTime) : Prop :=
  [time.year, time.month, time.day, time.hour, time.minute, time.second] <
    [other.year, other.month, other.day, other.hour, other.minute, other.second]

/-- The years that the conversions are for. -/
def InRange (time : DecomposedTime) : Prop := 1970 ≤ time.year ∧ time.year ≤ 9999

variable {time other : DecomposedTime}

theorem IsValid.secondOfDay_lt (valid : time.IsValid) : time.secondOfDay < secondsInDay := by
  have hhour := valid.hour
  have hminute := valid.minute
  have hsecond := valid.second
  unfold secondOfDay secondsInDay
  omega

theorem IsValid.before_iff (valid : time.IsValid) (valid' : other.IsValid) :
    time.Before other ↔ valid.date.Before valid'.date ∨
      (time.year = other.year ∧ time.month = other.month ∧ time.day = other.day) ∧
        time.secondOfDay < other.secondOfDay := by
  have hminute := valid.minute
  have hsecond := valid.second
  have hminute' := valid'.minute
  have hsecond' := valid'.second
  rw [Date.before_iff]
  simp only [Before, IsValid.date, secondOfDay, List.cons_lt_cons_iff, List.not_lt_nil, or_false,
    and_false]
  omega

end DecomposedTime

open DecomposedTime

variable {time other : DecomposedTime}

/-- The leap days of the years from 1970 on. -/
theorem daysBeforeYear_eq (years : ℕ) :
    daysBeforeYear 1970 (1970 + years) + (1969 + years) / 100 + 477 =
      365 * years + (1969 + years) / 4 + (1969 + years) / 400 := by
  induction years with
  | zero => rfl
  | succ years ih =>
      have hsucc : daysBeforeYear 1970 (1970 + (years + 1)) =
          daysBeforeYear 1970 (1970 + years) + yearLength (1970 + years) :=
        daysBeforeYear_succ (Nat.le_add_right 1970 years)
      -- Each quotient grows by 1 at a multiple of its divisor.
      have hfour : (1969 + years + 1) / 4 =
          (1969 + years) / 4 + if 4 ∣ 1969 + years + 1 then 1 else 0 := Nat.succ_div
      have hcentury : (1969 + years + 1) / 100 =
          (1969 + years) / 100 + if 100 ∣ 1969 + years + 1 then 1 else 0 := Nat.succ_div
      have hfourHundred : (1969 + years + 1) / 400 =
          (1969 + years) / 400 + if 400 ∣ 1969 + years + 1 then 1 else 0 := Nat.succ_div
      have hleap : IsLeap (1970 + years) ↔ 4 ∣ 1969 + years + 1 ∧
          (¬ 100 ∣ 1969 + years + 1 ∨ 400 ∣ 1969 + years + 1) := by
        unfold IsLeap
        omega
      rw [hsucc, yearLength, ← Nat.add_assoc 1969 years 1]
      simp only [hleap]
      by_cases hmultiple : 400 ∣ 1969 + years + 1
      · rw [if_pos (by omega)] at hfour hcentury hfourHundred
        rw [if_pos (by omega)]
        omega
      · rw [if_neg hmultiple] at hfourHundred
        by_cases hhundred : 100 ∣ 1969 + years + 1
        · rw [if_pos (by omega)] at hfour hcentury
          rw [if_neg (by omega)]
          omega
        · rw [if_neg hhundred] at hcentury
          split_ifs at hfour with hdvd
          · rw [if_pos (by omega)]
            omega
          · rw [if_neg (by omega)]
            omega

theorem daysBeforeMonth_eq (year : ℕ) : ∀ month, 1 ≤ month → month ≤ 12 →
    daysBeforeMonth year month =
      monthDays.getD (month - 1) 0 + if month ≥ 3 ∧ IsLeap year then 1 else 0 := by
  intro month hlow hhigh
  induction month, hlow using Nat.le_induction with
  | base => rfl
  | succ month hlow ih =>
      rw [daysBeforeMonth_succ year hlow, ih (by omega)]
      have hbelow : month < 12 := by omega
      clear hhigh
      interval_cases month
      · rfl
      · show 31 + monthLength year 2 = 59 + _
        by_cases hleap : IsLeap year
        · simp [monthLength, hleap]
        · simp [monthLength, hleap]
      all_goals simp [monthDays, monthLength]
      all_goals omega

namespace UnixTimestamp

/-- **`from_decomposed`** counts the days. -/
theorem fromDecomposed_eq_number (valid : time.IsValid) (range : time.InRange) :
    fromDecomposed time = valid.date.number 1970 * secondsInDay + time.secondOfDay := by
  obtain ⟨hfirst, hlast⟩ := range
  obtain ⟨years, hyears⟩ := Nat.exists_eq_add_of_le hfirst
  have hmonth := valid.month
  have hday : time.day ≤ 31 := valid.day.2.trans (monthLength_le _ _)
  have hpositive := valid.day.1
  have hhour := valid.hour
  have hminute := valid.minute
  have hsecond := valid.second
  have hbefore := daysBeforeYear_eq years
  have hmonths := daysBeforeMonth_eq time.year time.month hmonth.1 hmonth.2
  have htable : monthDays.getD (time.month - 1) 0 ≤ 334 := by
    have hall : ∀ m < 12, monthDays.getD m 0 ≤ 334 := by decide
    exact hall _ (by omega)
  unfold fromDecomposed
  rw [if_neg (show ¬ time.year < 1970 by omega)]
  dsimp only
  rw [if_neg (show ¬ (time.month > 12 ∨ time.month < 1) by omega),
    if_neg (show ¬ (time.day < 1 ∨ time.day > 31) by omega)]
  unfold Date.number IsValid.date DecomposedTime.secondOfDay secondsInDay
  dsimp only
  rw [hmonths]
  generalize monthDays.getD (time.month - 1) 0 = table at htable
  unfold IsLeap
  rw [← hyears] at hbefore
  have hdays : 365 * (time.year - 1970) % 0x100000000 = 365 * (time.year - 1970) :=
    Nat.mod_eq_of_lt (by omega)
  have hhours : time.hour * 3600 % 0x100000000 = time.hour * 3600 := Nat.mod_eq_of_lt (by omega)
  have hminutes : time.minute * 60 % 0x100000000 = time.minute * 60 :=
    Nat.mod_eq_of_lt (by omega)
  rw [hdays, hhours, hminutes]
  generalize daysBeforeYear 1970 time.year = before at hbefore
  have hsum : 365 * (time.year - 1970) + ((time.year - 1) / 4 - 1969 / 4) -
      ((time.year - 1) / 100 - 1969 / 100) + ((time.year - 1) / 400 - 1969 / 400) = before := by
    have hfourth : 492 ≤ (1969 + years) / 4 :=
      (Nat.le_div_iff_mul_le (by decide)).mpr (by omega)
    have hcentury : 19 ≤ (1969 + years) / 100 :=
      (Nat.le_div_iff_mul_le (by decide)).mpr (by omega)
    have hfourHundred : 4 ≤ (1969 + years) / 400 :=
      (Nat.le_div_iff_mul_le (by decide)).mpr (by omega)
    have hcenturies : (1969 + years) / 100 < 20 + years := Nat.div_lt_of_lt_mul (by omega)
    rw [hyears, Nat.add_sub_cancel_left, show 1970 + years - 1 = 1969 + years by omega]
    generalize (1969 + years) / 4 = fourths at *
    generalize (1969 + years) / 100 = centuries at *
    generalize (1969 + years) / 400 = fourHundreds at *
    clear hdays hhours hminutes hmonths hmonth hday hpositive hhour hminute hsecond htable hyears
      hfirst hlast
    omega
  rw [hsum]
  have hbound : before ≤ 4000000 := by omega
  clear hsum hbefore hdays hhours hminutes hmonths hyears hlast hfirst
  split_ifs with hleap
  all_goals
    rw [Nat.mod_eq_of_lt (by omega)]
    omega

theorem fromDecomposed_lt (valid : time.IsValid) (range : time.InRange)
    (valid' : other.IsValid) (range' : other.InRange) (before : time.Before other) :
    fromDecomposed time < fromDecomposed other := by
  have hsecond := valid.secondOfDay_lt
  rw [fromDecomposed_eq_number valid range, fromDecomposed_eq_number valid' range']
  unfold secondsInDay at *
  rcases (valid.before_iff valid').mp before with hdate | ⟨⟨hyear, hmonth, hday⟩, hlater⟩
  · have hnumber := Date.number_lt_of_before range.1 hdate
    omega
  · have hnumber : valid.date.number 1970 = valid'.date.number 1970 := by
      unfold Date.number IsValid.date
      dsimp only
      rw [hyear, hmonth, hday]
    omega

/-- **`from_decomposed`** is exact: it counts the days and the seconds since the first second of
1970, a day later is 86400 seconds later, and earlier is less. -/
theorem fromDecomposed_exact (valid : time.IsValid) (range : time.InRange)
    (valid' : other.IsValid) (range' : other.InRange) :
    fromDecomposed time = valid.date.number 1970 * secondsInDay + time.secondOfDay ∧
      (valid'.date = valid.date.next → other.secondOfDay = time.secondOfDay →
        fromDecomposed other = fromDecomposed time + 86400) ∧
      (time.Before other ↔ fromDecomposed time < fromDecomposed other) := by
  have htime := fromDecomposed_eq_number valid range
  have hother := fromDecomposed_eq_number valid' range'
  refine ⟨htime, fun hnext hsame => ?_, fromDecomposed_lt valid range valid' range', fun hlt => ?_⟩
  · rw [htime, hother, hnext, Date.number_next range.1, hsame]
    unfold secondsInDay
    omega
  · by_contra hnot
    by_cases hback : other.Before time
    · exact absurd (fromDecomposed_lt valid' range' valid range hback) (Nat.lt_asymm hlt)
    · -- Neither is earlier, so that they are the same.
      rw [valid.before_iff valid', Date.before_iff] at hnot
      rw [valid'.before_iff valid, Date.before_iff] at hback
      unfold IsValid.date at hnot hback
      have hdate : valid.date.number 1970 = valid'.date.number 1970 := by
        unfold Date.number IsValid.date
        dsimp only at *
        rw [show time.year = other.year by omega, show time.month = other.month by omega,
          show time.day = other.day by omega]
      have hsecond : time.secondOfDay = other.secondOfDay := by
        dsimp only at *
        omega
      rw [htime, hother, hdate, hsecond] at hlt
      exact Nat.lt_irrefl _ hlt

/-- The day after the 29th of February 2000. -/
theorem fromDecomposed_exact_leapDay :
    fromDecomposed ⟨2000, 3, 1, 12, 30, 0, 0⟩ = fromDecomposed ⟨2000, 2, 29, 12, 30, 0, 0⟩ + 86400 :=
  (@fromDecomposed_exact ⟨2000, 2, 29, 12, 30, 0, 0⟩ ⟨2000, 3, 1, 12, 30, 0, 0⟩
    ⟨by decide, by decide, by decide, by decide, by decide⟩ ⟨by decide, by decide⟩
    ⟨by decide, by decide, by decide, by decide, by decide⟩ ⟨by decide, by decide⟩).2.1 rfl rfl

theorem monthDays_le_of_lt_monthOf {day month : ℕ} (hpos : 1 ≤ month)
    (h : month < monthOf false day) : monthDays.getD month 0 ≤ day := by
  unfold monthOf at h
  generalize hfound : (List.range' 1 12).find? _ = found at h
  cases found with
  | none =>
      have hnot := List.find?_range'_eq_none.mp hfound month hpos (Nat.lt_of_lt_of_le h (by decide))
      simpa using hnot
  | some first =>
      have hnot := (List.find?_range'_eq_some.mp hfound).2.2 month hpos h
      simpa using hnot

theorem monthOf_bounds : ∀ day < 366, monthDays.getD (monthOf false day - 1) 0 ≤ day := by
  intro day _
  rcases Nat.lt_or_ge 1 (monthOf false day) with hlt | hle
  · exact monthDays_le_of_lt_monthOf (by omega) (by omega)
  · rw [Nat.sub_eq_zero_of_le hle]
    exact Nat.zero_le day

/-- Seconds that `decompose` makes a date of, from which `from_decomposed` makes them. -/
def RoundTrips (seconds : ℕ) : Prop :=
  (decompose seconds).IsValid ∧ fromDecomposed (decompose seconds) = seconds

/-- The first second of year 10000. -/
def endOfRange : ℕ := 253402300800

theorem decompose_year {seconds : ℕ} (h : seconds < endOfRange) :
    (decompose seconds).year = 1970 + seconds / secondsInYear ∧
      seconds / secondsInYear ≤ 8029 := by
  have hyears : seconds / secondsInYear ≤ 8029 := by
    unfold endOfRange at h
    unfold secondsInYear
    omega
  refine ⟨?_, hyears⟩
  show (seconds / secondsInYear % 0x100000000 + 1970) % 0x100000000 = _
  generalize seconds / secondsInYear = years at hyears
  omega

theorem isLeapYear_eq (year : ℕ) : isLeapYear year = decide (IsLeap year) := by
  rw [Bool.eq_iff_iff, decide_eq_true_iff]
  simp [isLeapYear, IsLeap]

theorem decompose_date {seconds : ℕ} (hleap : isLeapYear (decompose seconds).year = false) :
    monthDays.getD ((decompose seconds).month - 1) 0 + (decompose seconds).day =
      seconds % secondsInYear / secondsInDay := by
  have hday : seconds % secondsInYear / secondsInDay < 366 := by
    have := Nat.mod_lt seconds (show 0 < secondsInYear by decide)
    unfold secondsInYear secondsInDay at *
    omega
  have hmonth := monthOf_bounds _ hday
  generalize hindex : seconds % secondsInYear / secondsInDay = index at hday hmonth
  have hfields : (decompose seconds).month = monthOf false index ∧ (decompose seconds).day =
      (index + 0x100000000 - monthDays.getD (monthOf false index - 1) 0) % 0x100000000 := by
    rw [← hindex]
    unfold decompose at hleap ⊢
    dsimp only at hleap ⊢
    rw [hleap, Bool.false_and, if_neg Bool.false_ne_true]
    exact ⟨rfl, rfl⟩
  rw [hfields.1, hfields.2]
  omega

/-- The mean years that are a whole number of days are those of 400 years, and there
`decompose` is a day behind. -/
theorem not_roundTrips {seconds : ℕ} (h : seconds < endOfRange) : ¬ RoundTrips seconds := by
  rintro ⟨valid, hback⟩
  obtain ⟨hyear, hyears⟩ := decompose_year h
  have range : (decompose seconds).InRange := by
    unfold InRange
    rw [hyear]
    generalize seconds / secondsInYear = years at hyears
    omega
  have hsecond : (decompose seconds).secondOfDay = seconds % secondsInYear % secondsInDay := by
    unfold decompose DecomposedTime.secondOfDay secondsInYear secondsInDay
    dsimp only
    omega
  have hnumber := fromDecomposed_eq_number valid range
  rw [hback, hsecond] at hnumber
  have hsplit := Nat.div_add_mod seconds secondsInYear
  have hleftoverDays := Nat.div_add_mod (seconds % secondsInYear) secondsInDay
  -- The second of the day comes back only after 400 of the years.
  have hperiod : seconds / secondsInYear % 400 = 0 := by
    generalize valid.date.number 1970 = number at hnumber
    clear hback hyear hyears hsecond range valid h
    unfold secondsInYear secondsInDay at *
    generalize seconds / 31556952 = years at *
    generalize seconds % 31556952 = leftover at *
    generalize leftover / 86400 = days at *
    generalize leftover % 86400 = second at *
    omega
  obtain ⟨periods, hperiods⟩ := Nat.dvd_of_mod_eq_zero hperiod
  have hleap : ¬ IsLeap (decompose seconds).year := by
    unfold IsLeap
    omega
  have hdate := decompose_date ((isLeapYear_eq _).trans (decide_eq_false hleap))
  have hbefore := daysBeforeYear_eq (seconds / secondsInYear)
  have hmonths := daysBeforeMonth_eq (decompose seconds).year _ valid.month.1 valid.month.2
  rw [if_neg fun hboth => hleap hboth.2, Nat.add_zero] at hmonths
  have hfirst := valid.day.1
  unfold Date.number IsValid.date at hnumber
  dsimp only at hnumber
  rw [← hyear] at hbefore
  rw [hmonths] at hnumber
  generalize daysBeforeYear 1970 (decompose seconds).year = before at hbefore hnumber
  generalize monthDays.getD ((decompose seconds).month - 1) 0 = table at hdate hnumber
  unfold secondsInYear secondsInDay at *
  omega

theorem fromDecomposed_lt_endOfRange (valid : time.IsValid) (range : time.InRange) :
    fromDecomposed time < endOfRange := by
  have hnumber := (Date.number_lt (show 1970 ≤ valid.date.year from range.1)).2
  have hend : daysBeforeYear 1970 (time.year + 1) ≤ 2932897 := by
    have hbefore := daysBeforeYear_eq (time.year + 1 - 1970)
    rw [show 1970 + (time.year + 1 - 1970) = time.year + 1 by have := range.1; omega] at hbefore
    obtain ⟨hfirst, hlast⟩ := range
    omega
  have hsecond := valid.secondOfDay_lt
  rw [fromDecomposed_eq_number valid range]
  have hyear : valid.date.year = time.year := rfl
  rw [hyear] at hnumber
  unfold secondsInDay endOfRange at *
  omega

/-- **No timestamp and no date** comes back. -/
theorem decompose_never {seconds : ℕ} (h : seconds < endOfRange) (valid : time.IsValid)
    (range : time.InRange) :
    ¬ RoundTrips seconds ∧
      { decompose (fromDecomposed time) with nanosecond := time.nanosecond } ≠ time := by
  refine ⟨not_roundTrips h, fun hback => ?_⟩
  refine not_roundTrips (fromDecomposed_lt_endOfRange valid range) ?_
  unfold RoundTrips
  generalize hseconds : fromDecomposed time = seconds at hback ⊢
  generalize decompose seconds = date at hback ⊢
  obtain ⟨year, month, day, hour, minute, second, nanosecond⟩ := time
  cases date
  cases hback
  exact ⟨⟨valid.month, valid.day, valid.hour, valid.minute, valid.second⟩, hseconds⟩

/-- The first second of 1970 is taken for the day before the first of January. -/
theorem decompose_epoch_fails : ¬ RoundTrips 0 ∧ (decompose 0).day = 0 :=
  ⟨fun h => absurd h.1.day.1 (by decide), by decide⟩

/-- The first second of 1970, and its date. -/
theorem decompose_never_epoch :
    ¬ RoundTrips 0 ∧
      { decompose (fromDecomposed ⟨1970, 1, 1, 0, 0, 0, 0⟩) with nanosecond := 0 } ≠
        (⟨1970, 1, 1, 0, 0, 0, 0⟩ : DecomposedTime) :=
  @decompose_never ⟨1970, 1, 1, 0, 0, 0, 0⟩ 0 (by decide)
    ⟨by decide, by decide, by decide, by decide, by decide⟩
    ⟨by decide, by decide⟩

end UnixTimestamp

end BekOS
