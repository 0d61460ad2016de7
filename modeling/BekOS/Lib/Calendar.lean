import Mathlib.Algebra.BigOperators.Intervals
import Mathlib.Algebra.Order.BigOperators.Group.Finset

/-!
# The Gregorian calendar

Dates of the proleptic Gregorian calendar and their numbers: the lengths of the years and
months before them, and of the days.  The number of the next date is the next number, and
a later date has a larger one.
-/

namespace BekOS

namespace Calendar

open Finset

/-- The year has a day more. -/
def IsLeap (year : ℕ) : Prop := year % 4 = 0 ∧ (year % 100 ≠ 0 ∨ year % 400 = 0)
deriving Decidable

/-- The days of a year. -/
def yearLength (year : ℕ) : ℕ := if IsLeap year then 366 else 365

/-- The days of a month. -/
def monthLength (year : ℕ) : ℕ → ℕ
  | 2 => if IsLeap year then 29 else 28
  | 4 | 6 | 9 | 11 => 30
  | _ => 31

/-- A date. -/
structure Date where
  year : ℕ
  month : ℕ
  day : ℕ
  month_mem : 1 ≤ month ∧ month ≤ 12
  day_mem : 1 ≤ day ∧ day ≤ monthLength year month

/-- The days of the years from `first` on, up to `year`. -/
def daysBeforeYear (first year : ℕ) : ℕ := ∑ y ∈ Ico first year, yearLength y

/-- The days of a year that are before a month. -/
def daysBeforeMonth (year month : ℕ) : ℕ := ∑ m ∈ Ico 1 month, monthLength year m

variable {first year month : ℕ}

theorem monthLength_le (year month : ℕ) : monthLength year month ≤ 31 := by
  unfold monthLength
  split
  · split_ifs <;> decide
  all_goals decide

theorem monthLength_pos (year month : ℕ) : 0 < monthLength year month := by
  unfold monthLength
  split
  · split_ifs <;> decide
  all_goals decide

theorem daysBeforeYear_succ (h : first ≤ year) :
    daysBeforeYear first (year + 1) = daysBeforeYear first year + yearLength year :=
  sum_Ico_succ_top h _

theorem daysBeforeMonth_succ (year : ℕ) (h : 1 ≤ month) :
    daysBeforeMonth year (month + 1) = daysBeforeMonth year month + monthLength year month :=
  sum_Ico_succ_top h _

theorem daysBeforeYear_mono (first : ℕ) {year' : ℕ} (h : year ≤ year') :
    daysBeforeYear first year ≤ daysBeforeYear first year' :=
  sum_le_sum_of_subset (Ico_subset_Ico_right h)

theorem daysBeforeMonth_mono (year : ℕ) {month' : ℕ} (h : month ≤ month') :
    daysBeforeMonth year month ≤ daysBeforeMonth year month' :=
  sum_le_sum_of_subset (Ico_subset_Ico_right h)

/-- The months make up the year. -/
theorem daysBeforeMonth_thirteen (year : ℕ) : daysBeforeMonth year 13 = yearLength year := by
  unfold daysBeforeMonth yearLength
  rw [show Ico 1 13 = {1, 2, 3, 4, 5, 6, 7, 8, 9, 10, 11, 12} from by decide]
  simp only [sum_insert, mem_insert, mem_singleton, sum_singleton, monthLength, Nat.reduceEqDiff,
    or_self, not_false_eq_true]
  split_ifs <;> rfl

namespace Date

/-- The days from the first one of the year `first` up to a date. -/
def number (first : ℕ) (date : Date) : ℕ :=
  daysBeforeYear first date.year + daysBeforeMonth date.year date.month + (date.day - 1)

/-- The date after. -/
def next (date : Date) : Date :=
  if hday : date.day < monthLength date.year date.month then
    { date with
      day := date.day + 1
      day_mem := ⟨Nat.succ_pos _, hday⟩ }
  else if hmonth : date.month < 12 then
    { year := date.year
      month := date.month + 1
      day := 1
      month_mem := ⟨Nat.succ_pos _, hmonth⟩
      day_mem := ⟨le_rfl, monthLength_pos _ _⟩ }
  else
    { year := date.year + 1
      month := 1
      day := 1
      month_mem := by decide
      day_mem := ⟨le_rfl, monthLength_pos _ _⟩ }

/-- The date is earlier. -/
def Before (date other : Date) : Prop :=
  [date.year, date.month, date.day] < [other.year, other.month, other.day]

variable {date other : Date}

theorem before_iff : date.Before other ↔
    date.year < other.year ∨ date.year = other.year ∧ (date.month < other.month ∨
      date.month = other.month ∧ date.day < other.day) := by
  simp [Before, List.cons_lt_cons_iff]

/-- A date is in its month, and that in its year. -/
theorem number_lt (h : first ≤ date.year) :
    date.number first < daysBeforeYear first date.year +
        daysBeforeMonth date.year (date.month + 1) ∧
      date.number first < daysBeforeYear first (date.year + 1) := by
  have hday := date.day_mem
  have hmonth := daysBeforeMonth_succ date.year date.month_mem.1
  have hlast : daysBeforeMonth date.year (date.month + 1) ≤ daysBeforeMonth date.year 13 :=
    daysBeforeMonth_mono date.year (Nat.succ_le_succ date.month_mem.2)
  rw [daysBeforeMonth_thirteen] at hlast
  rw [daysBeforeYear_succ h]
  unfold number
  omega

/-- **The next date** has the next number. -/
theorem number_next (h : first ≤ date.year) : date.next.number first = date.number first + 1 := by
  have hday := date.day_mem
  have hmonth := daysBeforeMonth_succ date.year date.month_mem.1
  unfold next
  split_ifs with hin hyear
  · unfold number
    dsimp only
    omega
  · unfold number
    dsimp only
    omega
  · have hlast : date.month = 12 := by
      have := date.month_mem
      omega
    have hsucc := daysBeforeYear_succ h
    have hsum := daysBeforeMonth_thirteen date.year
    have hnone : daysBeforeMonth (date.year + 1) 1 = 0 := rfl
    rw [hlast, hsum] at hmonth
    rw [hlast] at hday hin
    unfold number
    dsimp only
    rw [hlast]
    omega

/-- **A later date** has a larger number. -/
theorem number_lt_of_before (h : first ≤ date.year) (before : date.Before other) :
    date.number first < other.number first := by
  obtain ⟨hinMonth, hinYear⟩ := number_lt h
  rcases before_iff.mp before with hyear | ⟨hyear, hmonth | ⟨hmonth, hday⟩⟩
  · have hmono : daysBeforeYear first (date.year + 1) ≤ daysBeforeYear first other.year :=
      daysBeforeYear_mono first hyear
    unfold number at *
    omega
  · have hmono : daysBeforeMonth date.year (date.month + 1) ≤
        daysBeforeMonth date.year other.month := daysBeforeMonth_mono date.year hmonth
    unfold number at *
    rw [← hyear]
    omega
  · have := date.day_mem
    unfold number
    rw [hyear, hmonth]
    omega

end Date

end Calendar

end BekOS
