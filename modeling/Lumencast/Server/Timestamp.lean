import Lumencast.Foundation.Calendar
import Lumencast.Foundation.Machine
import Lumencast.Server.Handler

/-!
# Calendar dates of timestamps

`epochToCalendar` counts in eras of 400 years and in years that begin in March,
so that the leap day is the last day of a year. A day of an era splits into
whole centuries, whole cycles of four years, whole years and days, and the
truncating divisions find these parts. `epochToCalendarChecked` is the same
computation with every machine operation checked.
-/

namespace Lumencast.Server

open Foundation Foundation.Calendar

/-- `epochToCalendar` with the ranges of the machine types: `none` if a subtraction of unsigned
numbers underflows, a result overflows its type or a cast loses a part of its argument. -/
def epochToCalendarChecked (secs : Nat) : Option (Int × Nat × Nat × Nat × Nat × Nat) := do
  let days ← signed 63 ↑(secs / 86400)
  let rem ← unsigned 32 ↑(secs % 86400)
  let hour := rem / 3600
  let minute := rem % 3600 / 60
  let second := rem % 60
  let z ← signed 63 (days + 719468)
  let dividend ← (if 0 ≤ z then some z else signed 63 (z - 146096))
  let era := dividend.tdiv 146097
  let before ← signed 63 (era * 146097)
  let offset ← signed 63 (z - before)
  let doe ← unsigned 32 offset
  let withoutLeap ← unsigned 32 (doe - ↑(doe / 1460))
  let withCenturies ← unsigned 32 (withoutLeap + ↑(doe / 36524))
  let corrected ← unsigned 32 (withCenturies - ↑(doe / 146096))
  let yoe := corrected / 365
  let eraYears ← signed 63 (era * 400)
  let y ← signed 63 (yoe + eraYears)
  let fullYears ← unsigned 32 (365 * yoe)
  let withLeap ← unsigned 32 (fullYears + ↑(yoe / 4))
  let beforeYear ← unsigned 32 (withLeap - ↑(yoe / 100))
  let doy ← unsigned 32 (doe - beforeYear)
  let fifths ← unsigned 32 (5 * doy)
  let shifted ← unsigned 32 (fifths + 2)
  let mp := shifted / 153
  let scaled ← unsigned 32 (153 * mp)
  let beforeMonth ← unsigned 32 (scaled + 2)
  let dayIndex ← unsigned 32 (doy - ↑(beforeMonth / 5))
  let d ← unsigned 32 (dayIndex + 1)
  let m ← (if mp < 10 then unsigned 32 (mp + 3) else unsigned 32 (mp - 9))
  let wide ← (if m ≤ 2 then signed 63 (y + 1) else some y)
  let year ← signed 31 wide
  return (year, m, d, hour, minute, second)

/-- The year of an era, counted from March, of a day of the era. -/
def yearOfEra (doe : Nat) : Nat := (doe - doe / 1460 + doe / 36524 - doe / 146096) / 365

def dayOfYear (doe : Nat) : Nat :=
  doe - (365 * yearOfEra doe + yearOfEra doe / 4 - yearOfEra doe / 100)

/-- A day of an era in centuries, cycles of four years, years and days. The last day of a
leap year stands behind four full years. -/
structure EraDay (doe : Nat) where
  centuries : Nat
  cycles : Nat
  years : Nat
  doy : Nat
  centuries_le : centuries ≤ 3
  cycles_le : cycles ≤ 24
  years_le : years ≤ 3
  doy_le : doy ≤ 365
  leap : doy = 365 → years = 3 ∧ (cycles < 24 ∨ centuries = 3)
  eq : doe = 36524 * centuries + 1461 * cycles + 365 * years + doy

theorem EraDay.exists_of_lt {doe : Nat} (lt : doe < 146097) : Nonempty (EraDay doe) := by
  by_cases last : doe = 146096
  · exact ⟨3, 24, 3, 365, by omega, by omega, by omega, by omega, by omega, by omega⟩
  · let century := doe % 36524
    let cycle := century % 1461
    by_cases leap : cycle = 1460
    · exact ⟨doe / 36524, century / 1461, 3, 365, by omega, by omega, by omega, by omega,
        by omega, by omega⟩
    · exact ⟨doe / 36524, century / 1461, cycle / 365, cycle % 365, by omega, by omega, by omega,
        by omega, by omega, by omega⟩

namespace EraDay

variable {doe : Nat}

def year (day : EraDay doe) : Nat := 100 * day.centuries + 4 * day.cycles + day.years

/-- The truncating divisions find the year. -/
theorem yearOfEra_eq (day : EraDay doe) : yearOfEra doe = day.year := by
  obtain ⟨centuries, cycles, years, doy, hc, hq, hk, hd, leap, eq⟩ := day
  simp only [yearOfEra, year]
  by_cases last : doe = 146096
  · have : centuries = 3 ∧ cycles = 24 ∧ years = 3 := by omega
    simp [last, this]
  · have century : doe / 36524 = centuries := by omega
    have era : doe / 146096 = 0 := by omega
    -- the correction by the days of full years is one too large late in a century
    have cycle : doe / 1460 = 25 * centuries + cycles ∨
        doe / 1460 = 25 * centuries + cycles + 1 ∧ 1364 ≤ 365 * years + doy := by omega
    rcases cycle with early | ⟨late, full⟩
    · rw [century, era, early]
      omega
    · rw [century, era, late]
      omega

theorem year_le (day : EraDay doe) : day.year ≤ 399 := by
  have centuries_le := day.centuries_le
  have cycles_le := day.cycles_le
  have years_le := day.years_le
  unfold year
  omega

/-- The days before the year and the day of the year add up. -/
theorem daysBefore_add (day : EraDay doe) :
    365 * day.year + day.year / 4 - day.year / 100 + day.doy = doe := by
  have eq := day.eq
  have centuries_le := day.centuries_le
  have cycles_le := day.cycles_le
  have years_le := day.years_le
  unfold year
  omega

theorem dayOfYear_eq (day : EraDay doe) : dayOfYear doe = day.doy := by
  have whole := day.daysBefore_add
  rw [dayOfYear, day.yearOfEra_eq]
  omega

end EraDay

def monthIndex (doy : Nat) : Nat := (5 * doy + 2) / 153

/-- The components of `epochToCalendar`. -/
def calendarOf (secs : Nat) : DateTime :=
  let (year, month, day, hour, minute, second) := epochToCalendar secs
  { year, month, day, hour, minute, second }

/-- A day of a year that begins in March: up to December it lies in the year that began. -/
theorem month_day_of_early {year doy day : Nat} (early : monthIndex doy < 10)
    (eq : day = doy - (153 * monthIndex doy + 2) / 5 + 1) :
    day ≤ daysInMonth year (monthIndex doy + 3) ∧
      daysBeforeMonth year (monthIndex doy + 3) + (day - 1) =
        doy + 59 + if isLeap year then 1 else 0 := by
  rw [daysBeforeMonth_march (Nat.le_of_lt_succ early), daysInMonth_march (Nat.le_of_lt_succ early)]
  have lower : (153 * monthIndex doy + 2) / 5 ≤ doy := by
    unfold monthIndex
    omega
  have upper : doy < (153 * (monthIndex doy + 1) + 2) / 5 := by
    unfold monthIndex
    omega
  omega

/-- From January on it lies in the next year. -/
theorem month_day_of_late {year doy day month : Nat} (late : ¬monthIndex doy < 10)
    (le : doy ≤ 365) (leap : doy = 365 → isLeap year = true)
    (day_eq : day = doy - (153 * monthIndex doy + 2) / 5 + 1)
    (month_eq : month = monthIndex doy - 9) :
    1 ≤ month ∧ month ≤ 2 ∧ day ≤ daysInMonth year month ∧
      daysBeforeMonth year month + (day - 1) + 306 = doy := by
  have january : daysBeforeMonth year 1 = 0 := by
    rw [daysBeforeMonth, Finset.Ico_self, Finset.sum_empty]
  have february : daysBeforeMonth year 2 = 31 := by
    rw [daysBeforeMonth_succ (Nat.le_refl 1), january]
    rfl
  have which : monthIndex doy = 10 ∧ 306 ≤ doy ∧ doy < 337 ∨ monthIndex doy = 11 ∧ 337 ≤ doy := by
    unfold monthIndex at late ⊢
    omega
  rcases which with ⟨index, lower, upper⟩ | ⟨index, lower⟩
  · rw [index] at day_eq month_eq
    subst month_eq
    simp only [daysInMonth, Nat.reduceSub, january]
    omega
  · rw [index] at day_eq month_eq
    subst month_eq
    simp only [daysInMonth, Nat.reduceSub, february]
    cases even : isLeap year with
    | true =>
        simp only [if_true]
        omega
    | false =>
        have : doy ≠ 365 := fun last => by simp [leap last] at even
        simp only [Bool.false_eq_true, if_false]
        omega

/-- The day of the era and the year from March of a count of days since March of the year 0. -/
def eraYear (z : Nat) : Nat := yearOfEra (z - z / 146097 * 146097) + z / 146097 * 400

theorem leapDays_eraYear {z : Nat} (day : EraDay (z - z / 146097 * 146097)) :
    leapDays (eraYear z) = 97 * (z / 146097) + 24 * day.centuries + day.cycles := by
  have centuries_le := day.centuries_le
  have cycles_le := day.cycles_le
  have years_le := day.years_le
  rw [eraYear, day.yearOfEra_eq, EraDay.year, leapDays]
  omega

theorem isLeap_eraYear_succ {z : Nat} (day : EraDay (z - z / 146097 * 146097))
    (last : day.doy = 365) : isLeap (eraYear z + 1) = true := by
  obtain ⟨years, full⟩ := day.leap last
  have centuries_le := day.centuries_le
  have cycles_le := day.cycles_le
  rw [eraYear, day.yearOfEra_eq, EraDay.year, isLeap]
  simp only [Bool.and_eq_true, Bool.or_eq_true, beq_iff_eq, bne_iff_ne]
  omega

/-- The days up to the year that begins behind the March year of a day. -/
theorem daysBeforeYear_eraYear {z : Nat} (late : 719468 ≤ z)
    (day : EraDay (z - z / 146097 * 146097)) :
    1969 ≤ eraYear z ∧ daysBeforeYear 1970 (eraYear z + 1) + 719468 + day.doy = z + 306 := by
  have eq := day.eq
  have centuries_le := day.centuries_le
  have cycles_le := day.cycles_le
  have years_le := day.years_le
  have doy_le := day.doy_le
  have year : eraYear z = day.year + z / 146097 * 400 := by rw [eraYear, day.yearOfEra_eq]
  have reaches : 1969 ≤ eraYear z := by
    rw [year, EraDay.year]
    omega
  refine ⟨reaches, ?_⟩
  have later : 1970 ≤ eraYear z + 1 := Nat.succ_le_succ reaches
  have closed := daysBeforeYear_eq later
  have first : leapDays 1970 = 477 ∧ isLeap 1970 = false := by decide
  rw [leapDays_succ (eraYear z), leapDays_eraYear day, first.1, first.2, year,
    EraDay.year] at closed
  rw [year, EraDay.year]
  simp only [Bool.false_eq_true, if_false] at closed
  omega

/-- The date of a count of days since March of the year 0. -/
theorem date_exact {z : Nat} (late : 719468 ≤ z) (pos : EraDay (z - z / 146097 * 146097))
    {month year day : Nat}
    (month_eq : month = if monthIndex pos.doy < 10 then monthIndex pos.doy + 3
      else monthIndex pos.doy - 9)
    (year_eq : year = if month ≤ 2 then eraYear z + 1 else eraYear z)
    (day_eq : day = pos.doy - (153 * monthIndex pos.doy + 2) / 5 + 1) :
    1 ≤ month ∧ month ≤ 12 ∧ day ≤ daysInMonth year month ∧ 1970 ≤ year ∧
      daysBeforeYear 1970 year + daysBeforeMonth year month + (day - 1) + 719468 = z := by
  obtain ⟨reaches, count⟩ := daysBeforeYear_eraYear late pos
  by_cases early : monthIndex pos.doy < 10
  · rw [if_pos early] at month_eq
    rw [if_neg (by omega)] at year_eq
    subst month_eq year_eq
    obtain ⟨day_le, month_count⟩ := @month_day_of_early (eraYear z) _ _ early day_eq
    have autumn : pos.doy < 306 := by
      unfold monthIndex at early
      omega
    -- a day before January cannot belong to the March year of 1969
    have year : 1970 ≤ eraYear z := by
      rcases Nat.eq_or_lt_of_le reaches with first | later
      · rw [← first, daysBeforeYear, Finset.Ico_self, Finset.sum_empty] at count
        omega
      · exact later
    rw [daysBeforeYear_succ year, daysInYear_eq] at count
    exact ⟨by omega, by omega, day_le, year, by omega⟩
  · rw [if_neg early] at month_eq
    have leap (last : pos.doy = 365) := isLeap_eraYear_succ pos last
    obtain ⟨month_pos, month_le, day_le, month_count⟩ :=
      month_day_of_late early pos.doy_le leap day_eq month_eq
    rw [if_pos month_le] at year_eq
    subst year_eq
    exact ⟨month_pos, by omega, day_le, by omega, by omega⟩

/-- The date through the day of the era and the March year. -/
theorem calendarOf_eq {secs z : Nat} (count : z = secs / 86400 + 719468)
    (pos : EraDay (z - z / 146097 * 146097)) :
    let month := if monthIndex pos.doy < 10 then monthIndex pos.doy + 3
      else monthIndex pos.doy - 9
    calendarOf secs =
      { year := if month ≤ 2 then eraYear z + 1 else eraYear z
        month
        day := pos.doy - (153 * monthIndex pos.doy + 2) / 5 + 1
        hour := secs % 86400 / 3600
        minute := secs % 86400 % 3600 / 60
        second := secs % 86400 % 60 } := by
  rw [← pos.dayOfYear_eq, count]
  rfl

theorem EraDay.exists_of_days (z : Nat) : Nonempty (EraDay (z - z / 146097 * 146097)) := by
  refine EraDay.exists_of_lt ?_
  omega

/-- The calendar date is valid and as many seconds from 1970 as the argument. -/
theorem calendarOf_exact (secs : Nat) :
    (calendarOf secs).Valid ∧ 1970 ≤ (calendarOf secs).year ∧
      (calendarOf secs).secondsSince 1970 = secs := by
  obtain ⟨z, count⟩ : ∃ z, z = secs / 86400 + 719468 := ⟨_, rfl⟩
  obtain ⟨pos⟩ := EraDay.exists_of_days z
  have late : 719468 ≤ z := by omega
  obtain ⟨month_pos, month_le, day_le, year_le, days⟩ := date_exact late pos rfl rfl rfl
  rw [calendarOf_eq count pos]
  refine ⟨⟨month_pos, month_le, Nat.le_add_left 1 _, day_le, ?_, ?_, ?_⟩, year_le, ?_⟩
  · exact Nat.div_lt_of_lt_mul (Nat.mod_lt secs (by decide))
  · exact Nat.div_lt_of_lt_mul (Nat.mod_lt _ (by decide))
  · exact Nat.mod_lt _ (by decide)
  · simp only [DateTime.secondsSince, DateTime.daysSince]
    omega

/-- No step of the machine computation leaves the range of its type while the year fits. -/
theorem epochToCalendarChecked_eq {secs : Nat} (fits : (calendarOf secs).year < 2 ^ 31) :
    epochToCalendarChecked secs =
      some (((calendarOf secs).year : Int), (calendarOf secs).month, (calendarOf secs).day,
        (calendarOf secs).hour, (calendarOf secs).minute, (calendarOf secs).second) := by
  obtain ⟨z, count⟩ : ∃ z, z = secs / 86400 + 719468 := ⟨_, rfl⟩
  obtain ⟨pos⟩ := EraDay.exists_of_days z
  rw [calendarOf_eq count pos] at fits ⊢
  obtain ⟨era, eras⟩ : ∃ era, era = z / 146097 := ⟨_, rfl⟩
  obtain ⟨doe, day⟩ : ∃ doe, doe = z - z / 146097 * 146097 := ⟨_, rfl⟩
  obtain ⟨yoe, year⟩ : ∃ yoe, yoe = yearOfEra doe := ⟨_, rfl⟩
  obtain ⟨doy, rest⟩ : ∃ doy, doy = pos.doy := ⟨_, rfl⟩
  obtain ⟨mp, index⟩ : ∃ mp, mp = monthIndex doy := ⟨_, rfl⟩
  have years : eraYear z = yoe + era * 400 := by rw [eraYear, year, day, eras]
  have split : z = 146097 * era + doe ∧ doe < 146097 := by omega
  have inYear : yoe ≤ 399 ∧ 365 * yoe + yoe / 4 - yoe / 100 + doy = doe := by
    rw [year, rest, day, pos.yearOfEra_eq]
    exact ⟨pos.year_le, pos.daysBefore_add⟩
  have month : mp ≤ 11 ∧ (153 * mp + 2) / 5 ≤ doy := by
    have doy_le := pos.doy_le
    rw [index, monthIndex]
    omega
  have small : yoe + era * 400 < 2 ^ 31 := by
    rw [← years]
    refine Nat.lt_of_le_of_lt ?_ fits
    simp only
    split <;> split <;> omega
  have quotient : (z : Int).tdiv 146097 = (era : Int) := by
    rw [eras]
    rfl
  rw [← rest, ← index, years] at fits ⊢
  refine signed_bind_eq _ rfl (by omega) ?_
  refine unsigned_bind_eq _ rfl (by omega) ?_
  refine signed_bind_eq z (by omega) (by omega) ?_
  -- the era and the day in it
  refine @bind_eq_of_eq_some _ _ _ _ (z : Int) _ rfl ?_
  refine signed_bind_eq (era * 146097) (by omega) (by omega) ?_
  refine signed_bind_eq doe (by omega) (by omega) ?_
  refine unsigned_bind_eq _ rfl (by omega) ?_
  -- the year of the era
  refine unsigned_bind_eq (doe - doe / 1460) (by omega) (by omega) ?_
  refine unsigned_bind_eq (doe - doe / 1460 + doe / 36524) (by omega) (by omega) ?_
  refine unsigned_bind_eq (doe - doe / 1460 + doe / 36524 - doe / 146096) (by omega) (by omega) ?_
  rw [← yearOfEra, ← year]
  refine signed_bind_eq (era * 400) (by omega) (by omega) ?_
  refine signed_bind_eq (yoe + era * 400) (by omega) (by omega) ?_
  -- the day of the year
  refine unsigned_bind_eq (365 * yoe) (by omega) (by omega) ?_
  refine unsigned_bind_eq (365 * yoe + yoe / 4) (by omega) (by omega) ?_
  refine unsigned_bind_eq (365 * yoe + yoe / 4 - yoe / 100) (by omega) (by omega) ?_
  refine unsigned_bind_eq doy (by omega) (by omega) ?_
  -- the month, and the day of the month
  refine unsigned_bind_eq (5 * doy) (by omega) (by omega) ?_
  refine unsigned_bind_eq (5 * doy + 2) (by omega) (by omega) ?_
  rw [← monthIndex, ← index]
  refine unsigned_bind_eq (153 * mp) (by omega) (by omega) ?_
  refine unsigned_bind_eq (153 * mp + 2) (by omega) (by omega) ?_
  refine unsigned_bind_eq (doy - (153 * mp + 2) / 5) (by omega) (by omega) ?_
  refine unsigned_bind_eq (doy - (153 * mp + 2) / 5 + 1) (by omega) (by omega) ?_
  refine @bind_eq_of_eq_some _ _ _ _ (if mp < 10 then mp + 3 else mp - 9) _ ?_ ?_
  · split
    · exact unsigned_eq_some rfl (by omega)
    · exact unsigned_eq_some (by omega) (by omega)
  generalize (if mp < 10 then mp + 3 else mp - 9) = m at fits ⊢
  refine @bind_eq_of_eq_some _ _ _ _
    ((if m ≤ 2 then yoe + era * 400 + 1 else yoe + era * 400 : Nat) : Int) _ ?_ ?_
  · split
    · exact signed_eq_some (by omega) (by omega)
    · rfl
  exact signed_bind_eq _ rfl fits rfl

/-- The calendar year of an instant fits in an `i32`. -/
def YearFits (secs : Nat) : Prop :=
  ∃ t : DateTime, t.Valid ∧ 1970 ≤ t.year ∧ t.secondsSince 1970 = secs ∧ t.year < 2 ^ 31

theorem YearFits.year_lt {secs : Nat} (fits : YearFits secs) :
    (calendarOf secs).year < 2 ^ 31 := by
  obtain ⟨t, valid, year_le, seconds, lt⟩ := fits
  obtain ⟨valid', year_le', seconds'⟩ := calendarOf_exact secs
  rwa [← DateTime.eq_of_secondsSince_eq valid valid' year_le year_le' (seconds.trans seconds'.symm)]

theorem calendarOf_injective {secs later : Nat} (same : calendarOf secs = calendarOf later) :
    secs = later := by
  rw [← (calendarOf_exact secs).2.2, same, (calendarOf_exact later).2.2]

/-- Later instants have later dates. -/
theorem calendarOf_strictMono {secs later : Nat} (lt : secs < later) :
    (calendarOf secs).lexicographic < (calendarOf later).lexicographic := by
  rcases lt_trichotomy (calendarOf secs).lexicographic (calendarOf later).lexicographic with
    earlier | same | reversed
  · exact earlier
  · exact absurd (calendarOf_injective (DateTime.lexicographic_injective same)) (Nat.ne_of_lt lt)
  · obtain ⟨valid, year_le, seconds⟩ := calendarOf_exact later
    have distance := DateTime.secondsSince_strictMono valid year_le reversed
    rw [seconds, (calendarOf_exact secs).2.2] at distance
    exact absurd distance (Nat.lt_asymm lt)

/-- A timestamp denotes the right instant: the machine computation succeeds with a valid date at
the distance of the argument from 1970, and later instants have later dates. -/
theorem epochToCalendar_exact :
    (∀ secs, YearFits secs →
      epochToCalendarChecked secs =
          some (((calendarOf secs).year : Int), (calendarOf secs).month, (calendarOf secs).day,
            (calendarOf secs).hour, (calendarOf secs).minute, (calendarOf secs).second) ∧
        (calendarOf secs).Valid ∧ 1970 ≤ (calendarOf secs).year ∧
        (calendarOf secs).secondsSince 1970 = secs) ∧
      (∀ secs later, YearFits secs → YearFits later → calendarOf secs = calendarOf later →
        secs = later) ∧
      ∀ secs later, YearFits secs → YearFits later → secs < later →
        (calendarOf secs).lexicographic < (calendarOf later).lexicographic := by
  refine ⟨fun secs fits => ?_, fun _ _ _ _ => calendarOf_injective,
    fun _ _ _ _ => calendarOf_strictMono⟩
  exact ⟨epochToCalendarChecked_eq fits.year_lt, calendarOf_exact secs⟩

example : epochToCalendar 951782400 = (2000, 2, 29, 0, 0, 0) := by decide

end Lumencast.Server
