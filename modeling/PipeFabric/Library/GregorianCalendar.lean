import Mathlib.Order.Basic

/-!
# The Gregorian calendar

Days and seconds are counted from the beginning of a year by adding up the lengths
of the years and of the months that have passed.
-/

namespace GregorianCalendar

def IsLeap (year : Nat) : Prop := 4 ∣ year ∧ (¬ 100 ∣ year ∨ 400 ∣ year)

instance : DecidablePred IsLeap := fun _ => inferInstanceAs (Decidable (_ ∧ _))

def yearDays (year : Nat) : Nat := if IsLeap year then 366 else 365

/-- The length of a month; January is month 0. -/
def monthDays (year : Nat) : Nat → Nat
  | 1 => if IsLeap year then 29 else 28
  | 3 | 5 | 8 | 10 => 30
  | _ => 31

/-- The days of the years from `first` up to and without `first + years`. -/
def daysOfYears (first : Nat) : Nat → Nat
  | 0 => 0
  | years + 1 => daysOfYears first years + yearDays (first + years)

/-- The days of a year before one of its months. -/
def daysOfMonths (year : Nat) : Nat → Nat
  | 0 => 0
  | months + 1 => daysOfMonths year months + monthDays year months

def IsDate (year month day : Nat) : Prop :=
  month < 12 ∧ 1 ≤ day ∧ day ≤ monthDays year month

def IsTime (hour minute second : Nat) : Prop :=
  hour < 24 ∧ minute < 60 ∧ second < 60

/-- A day of the calendar with a time of day. -/
structure DateTime where
  year : Nat
  month : Nat
  day : Nat
  hour : Nat
  minute : Nat
  second : Nat
  date : IsDate year month day
  time : IsTime hour minute second

theorem isTime_midnight : IsTime 0 0 0 := by
  unfold IsTime
  omega

namespace DateTime

/-- The beginning of a day. -/
def midnight (year month day : Nat) (date : IsDate year month day) : DateTime where
  year := year
  month := month
  day := day
  hour := 0
  minute := 0
  second := 0
  date := date
  time := isTime_midnight

/-- The days that have passed since the beginning of the year `first`. -/
def daysSince (first : Nat) (moment : DateTime) : Nat :=
  daysOfYears first (moment.year - first) + daysOfMonths moment.year moment.month +
    (moment.day - 1)

def secondsSince (first : Nat) (moment : DateTime) : Nat :=
  moment.daysSince first * 86400 + moment.hour * 3600 + moment.minute * 60 +
    moment.second

end DateTime

/-! ## Bounds -/

theorem yearDays_le (year : Nat) :
    yearDays year ≤ 365 + ((year + 4) / 4 - (year + 3) / 4) := by
  by_cases leap : IsLeap year
  · have fourth := leap.1
    simp only [yearDays, if_pos leap]
    omega
  · simp only [yearDays, if_neg leap]
    omega

/-- At most every fourth year is longer. -/
theorem daysOfYears_le (first years : Nat) :
    daysOfYears first years ≤
      365 * years + ((first + years + 3) / 4 - (first + 3) / 4) := by
  induction years with
  | zero => exact Nat.zero_le _
  | succ years induction =>
      have longest := yearDays_le (first + years)
      simp only [daysOfYears]
      omega

example : daysOfYears 1970 31 = 365 * 31 + 8 := by decide

theorem monthDays_le (year month : Nat) : monthDays year month ≤ 31 := by
  unfold monthDays
  split
  · split <;> omega
  all_goals omega

theorem daysOfMonths_le (year months : Nat) : daysOfMonths year months ≤ 31 * months := by
  induction months with
  | zero => exact Nat.le_refl 0
  | succ months induction =>
      have longest := monthDays_le year months
      simp only [daysOfMonths]
      omega

end GregorianCalendar
