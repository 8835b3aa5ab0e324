import PipeFabric.Core.Punctuation
import PipeFabric.Library.GregorianCalendar
import PipeFabric.Library.TruncatedDivision

/-!
# Conversions of timestamps

`TimestampHelper` converts timestamps to the POSIX time of Boost and back, and the
broken-down time of the C library to seconds.
-/

namespace PipeFabric

/-! ## POSIX time -/

/-- What the conversions use of `boost::posix_time`, a library outside the sources. -/
structure PosixTime (Ptime Duration : Type) where
  /-- `ptime(date(year, month, day))` -/
  midnight : Nat → Nat → Nat → Ptime
  from_time_t : Int → Ptime
  seconds : Int → Duration
  microseconds : Int → Duration
  add : Ptime → Duration → Ptime
  sub : Ptime → Ptime → Duration
  total_microseconds : Duration → Int
  /-- `operator<` -/
  before : Ptime → Ptime → Prop

namespace PosixTime

variable {Ptime Duration : Type}

def UNIX_EPOCH (boost : PosixTime Ptime Duration) : Ptime :=
  boost.midnight 1970 1 1

/-- A number of microseconds, three centuries at most in either direction. -/
def InRange (number : Int) : Prop :=
  -10000000000000000 ≤ number ∧ number ≤ 10000000000000000

/-- The documented arithmetic of times and durations, with a resolution of
microseconds, for the times near the epoch. -/
structure Documented (boost : PosixTime Ptime Duration) : Prop where
  epoch : boost.from_time_t 0 = boost.UNIX_EPOCH
  seconds_eq : ∀ number, InRange (1000000 * number) →
    boost.seconds number = boost.microseconds (1000000 * number)
  add_add : ∀ first second, InRange first → InRange second → InRange (first + second) →
    boost.add (boost.add boost.UNIX_EPOCH (boost.microseconds first))
        (boost.microseconds second) =
      boost.add boost.UNIX_EPOCH (boost.microseconds (first + second))
  sub_epoch : ∀ number, InRange number →
    boost.sub (boost.add boost.UNIX_EPOCH (boost.microseconds number)) boost.UNIX_EPOCH =
      boost.microseconds number
  total_eq : ∀ number, InRange number →
    boost.total_microseconds (boost.microseconds number) = number
  before_iff : ∀ first second, InRange first → InRange second →
    (boost.before (boost.add boost.UNIX_EPOCH (boost.microseconds first))
        (boost.add boost.UNIX_EPOCH (boost.microseconds second)) ↔ first < second)

/-- Times as microseconds since the beginning of 1970. -/
def ticks : PosixTime Int Int where
  midnight year month day :=
    (GregorianCalendar.daysOfYears 1970 (year - 1970) +
      GregorianCalendar.daysOfMonths year (month - 1) + (day - 1) : Nat) * 86400000000
  from_time_t number := 1000000 * number
  seconds number := 1000000 * number
  microseconds number := number
  add time duration := time + duration
  sub later earlier := later - earlier
  total_microseconds duration := duration
  before first second := first < second

theorem ticks_epoch : ticks.UNIX_EPOCH = 0 := by decide

theorem ticks_documented : ticks.Documented where
  epoch := by rw [ticks_epoch]; rfl
  seconds_eq := by
    intro number _
    rfl
  add_add := by
    intro first second _ _ _
    simp only [ticks]
    omega
  sub_epoch := by
    intro number _
    simp only [ticks]
    omega
  total_eq := by
    intro number _
    rfl
  before_iff := by
    intro first second _ _
    simp only [ticks]
    omega

end PosixTime

section

variable {Ptime Duration : Type} (boost : PosixTime Ptime Duration)

/-- Nanoseconds, which fit 64 bits or are undefined, are split into seconds and the
rest, and the rest is rounded to microseconds. -/
def timestampToPtime (ts : Timestamp) : Option Ptime :=
  let d := ts.toInt * 1000
  if -2 ^ 63 ≤ d ∧ d < 2 ^ 63 then
    let sec := d.tdiv (1000 * 1000 * 1000)
    let nsec := d.tmod (1000 * 1000 * 1000)
    some (boost.add (boost.add (boost.from_time_t 0) (boost.seconds sec))
      (boost.microseconds ((nsec + 500).tdiv 1000)))
  else none

def timestampFromTime (tm : Ptime) : Timestamp :=
  Int64.ofInt (boost.total_microseconds (boost.sub tm boost.UNIX_EPOCH))

/-- The nanoseconds of the timestamp fit 64 bits. -/
def Convertible (ts : Timestamp) : Prop :=
  -2 ^ 63 ≤ ts.toInt * 1000 ∧ ts.toInt * 1000 < 2 ^ 63

instance : DecidablePred Convertible := fun _ => inferInstanceAs (Decidable (_ ∧ _))

/-- The conversion to POSIX time and back gives the timestamp again. -/
def RoundTrips (ts : Timestamp) : Prop :=
  ∃ tm, timestampToPtime boost ts = some tm ∧ timestampFromTime boost tm = ts

/-- The earlier timestamp is converted to the earlier time. -/
def KeepsOrder (earlier later : Timestamp) : Prop :=
  ∃ first second, timestampToPtime boost earlier = some first ∧
    timestampToPtime boost later = some second ∧ boost.before first second

end

/-- The microseconds since the epoch that a timestamp is converted to. -/
def convertedTicks (ts : Timestamp) : Int :=
  TruncatedDivision.recombine 1000000 1000 500 ts.toInt

theorem convertedTicks_fixed_iff (ts : Timestamp) :
    convertedTicks ts = ts.toInt ↔ 0 ≤ ts.toInt ∨ 1000000 ∣ ts.toInt := by
  apply TruncatedDivision.recombine_fixed_iff
  · decide
  · decide

theorem convertedTicks_lt_iff {earlier later : Timestamp} (ordered : earlier < later) :
    convertedTicks earlier < convertedTicks later ↔
      ¬ (earlier.toInt < 0 ∧ later.toInt = earlier.toInt + 1 ∧
        1000000 ∣ later.toInt) := by
  have smaller : earlier.toInt < later.toInt := Int64.lt_iff_toInt_lt.mp ordered
  have neighbours : convertedTicks earlier < convertedTicks later ↔ _ :=
    TruncatedDivision.recombine_lt_iff (by decide) (by decide) smaller
  rw [neighbours]
  omega

section

variable {Ptime Duration : Type} {boost : PosixTime Ptime Duration}

open PosixTime

/-- Both parts of a convertible timestamp, and their sum, are near the epoch. -/
theorem Convertible.inRange {ts : Timestamp} (convertible : Convertible ts) :
    InRange (1000000 * ts.toInt.tdiv 1000000) ∧
      InRange ((1000 * ts.toInt.tmod 1000000 + 500).tdiv 1000) ∧
      InRange (convertedTicks ts) := by
  obtain ⟨low, high⟩ := convertible
  have together := Int.mul_tdiv_add_tmod ts.toInt 1000000
  have above := Int.tmod_lt_of_pos ts.toInt (b := 1000000) (by decide)
  have below := Int.lt_tmod_of_pos ts.toInt (b := 1000000) (by decide)
  have small : -1000000 < (1000 * ts.toInt.tmod 1000000 + 500).tdiv 1000 ∧
      (1000 * ts.toInt.tmod 1000000 + 500).tdiv 1000 ≤ 1000000 := by
    rw [TruncatedDivision.tdiv_mul_add (by decide) (by decide)]
    split <;> omega
  rw [convertedTicks, TruncatedDivision.recombine]
  refine ⟨⟨?_, ?_⟩, ⟨?_, ?_⟩, ⟨?_, ?_⟩⟩ <;> omega

/-- The time is the one that many microseconds after the epoch. -/
theorem timestampToPtime_eq (documented : boost.Documented) {ts : Timestamp}
    (convertible : Convertible ts) :
    timestampToPtime boost ts =
      some (boost.add boost.UNIX_EPOCH (boost.microseconds (convertedTicks ts))) := by
  obtain ⟨seconds, rest, sum⟩ := convertible.inRange
  have quotient : (ts.toInt * 1000).tdiv (1000 * 1000 * 1000) =
      ts.toInt.tdiv 1000000 := by
    rw [Int.mul_comm]
    exact Int.mul_tdiv_mul_of_pos ts.toInt 1000000 (by decide)
  have remainder : (ts.toInt * 1000).tmod (1000 * 1000 * 1000) =
      1000 * ts.toInt.tmod 1000000 := by
    rw [Int.mul_comm]
    exact Int.mul_tmod_mul_of_pos ts.toInt 1000000 (by decide)
  have split := documented.add_add _ _ seconds rest sum
  obtain ⟨low, high⟩ := convertible
  simp only [timestampToPtime, quotient, remainder]
  rw [if_pos ⟨low, high⟩, documented.epoch, documented.seconds_eq _ seconds, split]
  rfl

theorem roundTrips_iff (documented : boost.Documented) {ts : Timestamp}
    (convertible : Convertible ts) :
    RoundTrips boost ts ↔ convertedTicks ts = ts.toInt := by
  obtain ⟨_, _, sum⟩ := convertible.inRange
  have time := timestampToPtime_eq documented convertible
  have back : timestampFromTime boost
      (boost.add boost.UNIX_EPOCH (boost.microseconds (convertedTicks ts))) =
        Int64.ofInt (convertedTicks ts) := by
    rw [timestampFromTime, documented.sub_epoch _ sum, documented.total_eq _ sum]
  have number : (Int64.ofInt (convertedTicks ts)).toInt = convertedTicks ts := by
    obtain ⟨low, high⟩ := sum
    apply Int64.toInt_ofInt_of_le <;> omega
  constructor
  · intro round
    obtain ⟨tm, converted, same⟩ := round
    rw [time, Option.some.injEq] at converted
    rw [← converted, back] at same
    rw [← same, number]
    exact congrArg convertedTicks same
  · intro fixed
    refine ⟨_, time, ?_⟩
    rw [back, fixed, Int64.ofInt_toInt]

theorem keepsOrder_iff (documented : boost.Documented) {earlier later : Timestamp}
    (earlierFits : Convertible earlier) (laterFits : Convertible later) :
    KeepsOrder boost earlier later ↔ convertedTicks earlier < convertedTicks later := by
  obtain ⟨_, _, earlierSum⟩ := earlierFits.inRange
  obtain ⟨_, _, laterSum⟩ := laterFits.inRange
  have first := timestampToPtime_eq documented earlierFits
  have second := timestampToPtime_eq documented laterFits
  rw [← documented.before_iff _ _ earlierSum laterSum]
  constructor
  · intro kept
    obtain ⟨one, other, firstTime, secondTime, before⟩ := kept
    rw [first, Option.some.injEq] at firstTime
    rw [second, Option.some.injEq] at secondTime
    rw [firstTime, secondTime]
    exact before
  · intro before
    exact ⟨_, _, first, second, before⟩

/-- Below zero, every time that is not a whole second is converted to the microsecond
after it. -/
theorem timestamps_converted_iff (documented : boost.Documented) :
    (∀ ts, Convertible ts →
      (RoundTrips boost ts ↔ 0 ≤ ts.toInt ∨ 1000000 ∣ ts.toInt)) ∧
    ∀ earlier later, Convertible earlier → Convertible later → earlier < later →
      (KeepsOrder boost earlier later ↔
        ¬ (earlier.toInt < 0 ∧ later.toInt = earlier.toInt + 1 ∧
          1000000 ∣ later.toInt)) := by
  constructor
  · intro ts convertible
    rw [roundTrips_iff documented convertible, convertedTicks_fixed_iff]
  · intro earlier later earlierFits laterFits ordered
    rw [keepsOrder_iff documented earlierFits laterFits, convertedTicks_lt_iff ordered]

/-- Two and a half seconds after the epoch, and one microsecond before it. -/
theorem ticks_converted :
    RoundTrips ticks 2500000 ∧ ¬ KeepsOrder ticks (-1) 0 := by
  have conversions := timestamps_converted_iff ticks_documented
  constructor
  · apply (conversions.1 2500000 (by decide)).mpr
    decide
  · intro kept
    have apart := (conversions.2 (-1) 0 (by decide)
      (by decide) (by decide)).mp kept
    exact apart (by decide)

/-- The microsecond before the epoch is converted to the epoch. -/
theorem not_roundTrips_before_epoch :
    Convertible (-1) ∧ Convertible 0 ∧ ¬ RoundTrips ticks (-1) ∧
      ¬ KeepsOrder ticks (-1) 0 := by
  have epoch : timestampToPtime ticks (-1) = some 0 := by decide
  refine ⟨by decide, by decide, ?_, ?_⟩
  · intro round
    obtain ⟨tm, converted, same⟩ := round
    rw [epoch, Option.some.injEq] at converted
    rw [← converted] at same
    exact absurd same (by decide)
  · intro kept
    obtain ⟨first, second, firstTime, secondTime, before⟩ := kept
    have zero : timestampToPtime ticks 0 = some 0 := by decide
    rw [epoch, Option.some.injEq] at firstTime
    rw [zero, Option.some.injEq] at secondTime
    rw [← firstTime, ← secondTime] at before
    exact Int.lt_irrefl 0 before

end

/-! ## Broken-down time -/

open GregorianCalendar

/-- What is read of a `struct std::tm`.  The fields are `int`s; the month of January is 0
and the year 1900 is 0. -/
structure Tm where
  tm_sec : Int
  tm_min : Int
  tm_hour : Int
  tm_mday : Int
  tm_mon : Int
  tm_year : Int

/-- The result of an operation on `int`s, which is undefined outside the type. -/
def intResult (value : Int) : Option Int :=
  if -2 ^ 31 ≤ value ∧ value < 2 ^ 31 then some value else none

def prefixSumMonthDays : List Int :=
  [31, 59, 90, 120, 151, 181, 212, 243, 273, 304, 334, 365]

def SECONDS_PER_MIN : Int := 60

def SECONDS_PER_HOUR : Int := 60 * SECONDS_PER_MIN

def SECONDS_PER_DAY : Int := 365 * SECONDS_PER_HOUR

/-- The year, the day and the hour are taken as `int`s and the minutes are multiplied as
`unsigned int`s; the rest is in 64 bits, where nothing overflows. -/
def time_to_epoch (ltm : Tm) (utcdiff : Int) : Option Int := do
  let tyears ← intResult (ltm.tm_year - 70)
  let leaps := (tyears + 2).tdiv 4
  let month ← if ltm.tm_mon < 0 then none else prefixSumMonthDays[ltm.tm_mon.toNat]?
  let mday ← intResult (ltm.tm_mday - 1)
  let tdays := month + mday + tyears * 365 + leaps
  let utc_hrs ← intResult (ltm.tm_hour + utcdiff)
  return tdays * SECONDS_PER_DAY + utc_hrs * SECONDS_PER_HOUR +
    ltm.tm_min * SECONDS_PER_MIN % 2 ^ 32 + ltm.tm_sec

/-- The broken-down time of a moment. -/
def brokenDown (moment : DateTime) : Tm where
  tm_sec := moment.second
  tm_min := moment.minute
  tm_hour := moment.hour
  tm_mday := moment.day
  tm_mon := moment.month
  tm_year := moment.year - 1900

theorem intResult_eq {value : Int} (low : -2 ^ 31 ≤ value) (high : value < 2 ^ 31) :
    intResult value = some value := by
  rw [intResult, if_pos ⟨low, high⟩]

/-- The table counts the days of the month itself too. -/
theorem prefixSumMonthDays_get {month : Nat} (inside : month < 12) :
    ∃ days, prefixSumMonthDays[month]? = some days ∧
      31 ≤ days ∧ 31 * (month : Int) ≤ days := by
  have stored : month < prefixSumMonthDays.length := inside
  have entries : ∀ k : Fin 12, 31 ≤ prefixSumMonthDays[k.val] ∧
      31 * (k.val : Int) ≤ prefixSumMonthDays[k.val] := by decide
  exact ⟨_, List.getElem?_eq_getElem stored, entries ⟨month, inside⟩⟩

/-- The sum that is returned when nothing is out of range. -/
theorem time_to_epoch_eq {ltm : Tm} {utcdiff days : Int}
    (year : intResult (ltm.tm_year - 70) = some (ltm.tm_year - 70))
    (month : 0 ≤ ltm.tm_mon)
    (entry : prefixSumMonthDays[ltm.tm_mon.toNat]? = some days)
    (day : intResult (ltm.tm_mday - 1) = some (ltm.tm_mday - 1))
    (hour : intResult (ltm.tm_hour + utcdiff) = some (ltm.tm_hour + utcdiff)) :
    time_to_epoch ltm utcdiff =
      some ((days + (ltm.tm_mday - 1) + (ltm.tm_year - 70) * 365 +
          (ltm.tm_year - 70 + 2).tdiv 4) * SECONDS_PER_DAY +
        (ltm.tm_hour + utcdiff) * SECONDS_PER_HOUR +
        ltm.tm_min * SECONDS_PER_MIN % 2 ^ 32 + ltm.tm_sec) := by
  have known : ¬ ltm.tm_mon < 0 := by omega
  simp only [time_to_epoch, year, entry, day, hour, if_neg known]
  rfl

/-- The result is too large for every moment since 1970: the month counts as passed, a
leap year from its beginning on, and a day has 365 hours. -/
theorem time_to_epoch_late {moment : DateTime} (since : 1970 ≤ moment.year)
    (fits : moment.year < 2 ^ 31) :
    ∃ returned, time_to_epoch (brokenDown moment) 0 = some returned ∧
      (moment.secondsSince 1970 : Int) < returned := by
  obtain ⟨monthLt, dayPos, dayLe⟩ := moment.date
  obtain ⟨hourLt, minuteLt, secondLt⟩ := moment.time
  obtain ⟨days, entry, full, passed⟩ := prefixSumMonthDays_get monthLt
  have monthLength := monthDays_le moment.year moment.month
  have months := daysOfMonths_le moment.year moment.month
  have years := daysOfYears_le 1970 (moment.year - 1970)
  refine ⟨_, time_to_epoch_eq ?_ ?_ entry ?_ ?_, ?_⟩
  · apply intResult_eq <;> simp only [brokenDown] <;> omega
  · exact Int.natCast_nonneg moment.month
  · apply intResult_eq <;> simp only [brokenDown] <;> omega
  · apply intResult_eq <;> simp only [brokenDown] <;> omega
  · have leaps : ((moment.year : Int) - 1900 - 70 + 2).tdiv 4 = (moment.year - 1968) / 4 := by
      rw [Int.tdiv_eq_ediv_of_nonneg (by omega)]
      omega
    simp only [brokenDown, leaps, DateTime.secondsSince, DateTime.daysSince,
      SECONDS_PER_DAY, SECONDS_PER_HOUR, SECONDS_PER_MIN]
    omega

/-- No moment from 1970 to 2099 is converted to its seconds since the epoch. -/
theorem time_to_epoch_neverExact (moment : DateTime) (since : 1970 ≤ moment.year)
    (until2099 : moment.year ≤ 2099) :
    time_to_epoch (brokenDown moment) 0 ≠ some (moment.secondsSince 1970 : Int) := by
  obtain ⟨returned, result, later⟩ := time_to_epoch_late since (by omega)
  intro exact
  rw [result, Option.some.injEq] at exact
  omega

theorem isDate_leapDay : IsDate 2000 1 29 := by
  unfold IsDate
  decide

/-- The beginning of the leap day of 2000. -/
theorem leapDay_notExact :
    time_to_epoch (brokenDown (.midnight 2000 1 29 isDate_leapDay)) 0 ≠
      some ((DateTime.midnight 2000 1 29 isDate_leapDay).secondsSince 1970 : Int) :=
  time_to_epoch_neverExact (.midnight 2000 1 29 isDate_leapDay) (by decide) (by decide)

theorem isDate_epoch : IsDate 1970 0 1 := by
  unfold IsDate
  decide

/-- At the epoch no second has passed, and the result is that of 31 days of 365 hours. -/
theorem epoch_notExact :
    time_to_epoch (brokenDown (.midnight 1970 0 1 isDate_epoch)) 0 = some 40734000 ∧
      time_to_epoch (brokenDown (.midnight 1970 0 1 isDate_epoch)) 0 ≠
        some ((DateTime.midnight 1970 0 1 isDate_epoch).secondsSince 1970 : Int) := by
  constructor
  · decide
  · decide

end PipeFabric
