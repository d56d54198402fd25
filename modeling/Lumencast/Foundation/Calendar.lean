import Mathlib.Algebra.BigOperators.Intervals
import Mathlib.Algebra.Order.BigOperators.Group.Finset
import Mathlib.Algebra.Order.Ring.Nat
import Mathlib.Data.Prod.Lex
import Mathlib.Tactic.Common
import Mathlib.Tactic.IntervalCases

/-!
# The proleptic Gregorian calendar

Dates and times of day, counted from the beginning of a first year by adding up
the lengths of whole years, whole months and whole days. The count is strictly
monotone in the lexicographic order of valid dates. `daysBeforeYear_eq` gives
the closed form of the leap rule.
-/

namespace Lumencast.Foundation.Calendar

/-- Every fourth year, but of the full centuries only every fourth one. -/
def isLeap (year : Nat) : Bool := year % 4 == 0 && (year % 100 != 0 || year % 400 == 0)

def daysInMonth (year month : Nat) : Nat :=
  match month with
  | 1 | 3 | 5 | 7 | 8 | 10 | 12 => 31
  | 4 | 6 | 9 | 11 => 30
  | 2 => if isLeap year then 29 else 28
  | _ => 0

/-- The days of a year before one of its months. -/
def daysBeforeMonth (year month : Nat) : Nat := ∑ m ∈ Finset.Ico 1 month, daysInMonth year m

def daysInYear (year : Nat) : Nat := daysBeforeMonth year 13

/-- The days from the beginning of the year `first` to the beginning of `year`. -/
def daysBeforeYear (first year : Nat) : Nat := ∑ y ∈ Finset.Ico first year, daysInYear y

structure DateTime where
  year : Nat
  month : Nat
  day : Nat
  hour : Nat
  minute : Nat
  second : Nat
  deriving DecidableEq, Repr

namespace DateTime

/-- A date of the calendar and a time of day. -/
structure Valid (t : DateTime) : Prop where
  month_pos : 1 ≤ t.month
  month_le : t.month ≤ 12
  day_pos : 1 ≤ t.day
  day_le : t.day ≤ daysInMonth t.year t.month
  hour_lt : t.hour < 24
  minute_lt : t.minute < 60
  second_lt : t.second < 60

def daysSince (first : Nat) (t : DateTime) : Nat :=
  daysBeforeYear first t.year + daysBeforeMonth t.year t.month + (t.day - 1)

/-- The seconds from the beginning of the year `first`. -/
def secondsSince (first : Nat) (t : DateTime) : Nat :=
  ((t.daysSince first * 24 + t.hour) * 60 + t.minute) * 60 + t.second

/-- The components under the lexicographic order. -/
def lexicographic (t : DateTime) : ℕ ×ₗ ℕ ×ₗ ℕ ×ₗ ℕ ×ₗ ℕ ×ₗ ℕ :=
  toLex (t.year, toLex (t.month, toLex (t.day, toLex (t.hour, toLex (t.minute, t.second)))))

end DateTime

theorem daysBeforeMonth_succ {year month : Nat} (positive : 1 ≤ month) :
    daysBeforeMonth year (month + 1) = daysBeforeMonth year month + daysInMonth year month :=
  Finset.sum_Ico_succ_top positive _

theorem daysBeforeMonth_mono {year month later : Nat} (le : month ≤ later) :
    daysBeforeMonth year month ≤ daysBeforeMonth year later :=
  Finset.sum_le_sum_of_subset (Finset.Ico_subset_Ico_right le)

theorem daysInYear_eq (year : Nat) : daysInYear year = 365 + if isLeap year then 1 else 0 := by
  simp only [daysInYear, daysBeforeMonth, Finset.sum_Ico_succ_top, Nat.reduceLeDiff, daysInMonth,
    Finset.Ico_self, Finset.sum_empty]
  split <;> rfl

/-- From March on, the month lengths follow a straight line. -/
theorem daysBeforeMonth_march {year n : Nat} (le : n ≤ 9) :
    daysBeforeMonth year (n + 3) = (153 * n + 2) / 5 + 59 + if isLeap year then 1 else 0 := by
  interval_cases n <;>
    simp only [daysBeforeMonth, Finset.sum_Ico_succ_top, Nat.reduceLeDiff, Nat.reduceAdd,
      daysInMonth, Finset.Ico_self, Finset.sum_empty] <;> split <;> rfl

theorem daysInMonth_march {year n : Nat} (le : n ≤ 9) :
    daysInMonth year (n + 3) = (153 * (n + 1) + 2) / 5 - (153 * n + 2) / 5 := by
  interval_cases n <;> rfl

theorem daysBeforeYear_succ {first year : Nat} (le : first ≤ year) :
    daysBeforeYear first (year + 1) = daysBeforeYear first year + daysInYear year :=
  Finset.sum_Ico_succ_top le _

theorem daysBeforeYear_mono {first year later : Nat} (le : year ≤ later) :
    daysBeforeYear first year ≤ daysBeforeYear first later :=
  Finset.sum_le_sum_of_subset (Finset.Ico_subset_Ico_right le)

/-- The leap days up to and including a year. -/
def leapDays (year : Nat) : Nat := year / 4 - year / 100 + year / 400

theorem leapDays_succ (year : Nat) :
    leapDays (year + 1) = leapDays year + if isLeap (year + 1) then 1 else 0 := by
  have fewer : year / 100 ≤ year / 4 := Nat.div_le_div_left (by decide) (by decide)
  have century : 100 ∣ year + 1 → 4 ∣ year + 1 := Nat.dvd_trans (by decide)
  have cycle : 400 ∣ year + 1 → 100 ∣ year + 1 := Nat.dvd_trans (by decide)
  have leap : isLeap (year + 1) = true ↔
      4 ∣ year + 1 ∧ (¬100 ∣ year + 1 ∨ 400 ∣ year + 1) := by
    simp [isLeap, Nat.dvd_iff_mod_eq_zero]
  simp only [leapDays, Nat.succ_div, leap]
  by_cases fourth : 4 ∣ year + 1
  · by_cases hundredth : 100 ∣ year + 1
    · by_cases last : 400 ∣ year + 1
      · simp only [fourth, hundredth, last, if_true, not_true, false_or, and_self]
        omega
      · simp [fourth, hundredth, last]
    · simp only [fourth, hundredth, mt cycle hundredth, if_true, if_false, not_false_iff, true_or,
        and_self, Nat.add_zero]
      omega
  · have hundredth := mt century fourth
    simp [fourth, hundredth, mt cycle hundredth]

/-- The closed form of the day count. -/
theorem daysBeforeYear_eq {first year : Nat} (le : first ≤ year) :
    daysBeforeYear first year + 365 * first + leapDays first + (if isLeap year then 1 else 0) =
      365 * year + leapDays year + if isLeap first then 1 else 0 := by
  induction year, le using Nat.le_induction with
  | base => rw [daysBeforeYear, Finset.Ico_self, Finset.sum_empty, Nat.zero_add]
  | succ year le ih =>
      rw [daysBeforeYear_succ le, daysInYear_eq, leapDays_succ]
      omega

namespace DateTime

variable {first : Nat} {t u : DateTime}

theorem daysSince_lt_of_year_lt (valid : t.Valid) (le : first ≤ t.year) (lt : t.year < u.year) :
    t.daysSince first < u.daysSince first := by
  have month : daysBeforeMonth t.year t.month + t.day ≤ daysInYear t.year := by
    refine Nat.le_trans (Nat.add_le_add_left valid.day_le _) ?_
    rw [← daysBeforeMonth_succ valid.month_pos]
    exact daysBeforeMonth_mono (Nat.succ_le_succ valid.month_le)
  have year : daysBeforeYear first t.year + daysInYear t.year ≤ daysBeforeYear first u.year := by
    rw [← daysBeforeYear_succ le]
    exact daysBeforeYear_mono lt
  have positive := valid.day_pos
  unfold daysSince
  omega

theorem daysSince_lt_of_month_lt (valid : t.Valid) (year : t.year = u.year)
    (lt : t.month < u.month) : t.daysSince first < u.daysSince first := by
  have month : daysBeforeMonth t.year t.month + t.day ≤ daysBeforeMonth u.year u.month := by
    refine Nat.le_trans (Nat.add_le_add_left valid.day_le _) ?_
    rw [← daysBeforeMonth_succ valid.month_pos, year]
    exact daysBeforeMonth_mono lt
  have positive := valid.day_pos
  unfold daysSince
  rw [year] at month ⊢
  omega

/-- A later date is more seconds away from the first year. -/
theorem secondsSince_strictMono (valid : t.Valid) (le : first ≤ t.year)
    (lt : t.lexicographic < u.lexicographic) : t.secondsSince first < u.secondsSince first := by
  have hour := valid.hour_lt
  have minute := valid.minute_lt
  have second := valid.second_lt
  have before (days : t.daysSince first < u.daysSince first) :
      t.secondsSince first < u.secondsSince first := by
    unfold secondsSince
    omega
  simp only [lexicographic, Prod.Lex.toLex_lt_toLex] at lt
  rcases lt with year | ⟨year, month | ⟨month, day | ⟨day, time⟩⟩⟩
  · exact before (daysSince_lt_of_year_lt valid le year)
  · exact before (daysSince_lt_of_month_lt valid year month)
  · refine before ?_
    have positive := valid.day_pos
    unfold daysSince
    rw [year, month]
    omega
  · have days : t.daysSince first = u.daysSince first := by
      rw [daysSince, daysSince, year, month, day]
    unfold secondsSince
    rw [days]
    omega

theorem lexicographic_injective (same : t.lexicographic = u.lexicographic) : t = u := by
  simp only [lexicographic, toLex_inj, Prod.mk.injEq] at same
  obtain ⟨year, month, day, hour, minute, second⟩ := same
  rw [DateTime.mk.injEq]
  exact ⟨year, month, day, hour, minute, second⟩

/-- A date is determined by its distance from the first year. -/
theorem eq_of_secondsSince_eq (valid : t.Valid) (valid' : u.Valid) (le : first ≤ t.year)
    (le' : first ≤ u.year) (eq : t.secondsSince first = u.secondsSince first) : t = u := by
  rcases lt_trichotomy t.lexicographic u.lexicographic with earlier | same | later
  · exact absurd eq (Nat.ne_of_lt (secondsSince_strictMono valid le earlier))
  · exact lexicographic_injective same
  · exact absurd eq.symm (Nat.ne_of_lt (secondsSince_strictMono valid' le' later))

end DateTime
end Lumencast.Foundation.Calendar
