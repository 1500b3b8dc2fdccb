import Mathlib.Tactic.Ring
import StardustOS.Lib.Calendar

/-!
# The clock of the kernel

`time` reads the date and time out of the CMOS with `arch_clock` and counts the
seconds up to it with `dt2t`.  `boottime` is the time since the boot, `time` less
the value it had when `bootstrap_main` stored it in `boot_time`.

The CMOS holds the year as two digits and `arch_clock` hands them on, while the
loop of `dt2t` over the years begins with 1970 and so ends at once.  The years are
not counted: `time` gives the seconds since the start of the year
(`time_of_shows`), and goes backwards when a new year comes.
-/

namespace StardustOS.Time

open Lib (Moment)

/-! ## The source -/

def EPOCH_YEAR : Int := 1970
def SECONDS_PER_MINUTE : Int := 60
def SECONDS_PER_HOURS : Int := SECONDS_PER_MINUTE * 60
def SECONDS_PER_DAY : Int := SECONDS_PER_HOURS * 24

/-- `IS_LEAP_YEAR`.  The index of the tables `dpm` and `dpy` is its value. -/
def IS_LEAP_YEAR (year : Int) : Bool :=
  year.tmod 4 = 0 ∧ year.tmod 100 ≠ 0 ∨ year.tmod 400 = 0

/-- `dpm`: the days of the months of a year. -/
def dpm : Bool → List Int
  | false => [31, 28, 31, 30, 31, 30, 31, 31, 30, 31, 30, 31]
  | true => [31, 29, 31, 30, 31, 30, 31, 31, 30, 31, 30, 31]

/-- `dpy`: the days of a year. -/
def dpy : Bool → Int
  | false => 365
  | true => 366

/-- `datetime_t`. -/
structure Datetime where
  sec : Int
  min : Int
  hr : Int
  day : Int
  mon : Int
  yr : Int
deriving DecidableEq, Repr

/-- `dt2t`.  Past its end the table `dpm` reads as 0 here, which no date asks for.  A
`time_t` has 32 bits, and no value that `time` computes from a date needs more
(`time_range`). -/
def dt2t (dt : Datetime) : Int :=
  let t := (List.range (dt.yr - EPOCH_YEAR).toNat).foldl
    (fun t (i : Nat) => t + dpy (IS_LEAP_YEAR (EPOCH_YEAR + i)) * SECONDS_PER_DAY) 0
  let t := (List.range (dt.mon - 1).toNat).foldl
    (fun t (month : Nat) => t + (dpm (IS_LEAP_YEAR dt.yr)).getD month 0 * SECONDS_PER_DAY) t
  let t := t + (dt.day - 1) * SECONDS_PER_DAY
  let t := t + dt.hr * SECONDS_PER_HOURS
  let t := t + dt.min * SECONDS_PER_MINUTE
  t + dt.sec

/-- A state of the real time clock: the byte that `inb(CMOS_DATA)` gives for each
register. -/
abbrev Rtc := UInt8 → UInt8

def T_SECOND : UInt8 := 0x0
def T_MINUTE : UInt8 := 0x2
def T_HOUR : UInt8 := 0x4
def T_DAY : UInt8 := 0x7
def T_MONTH : UInt8 := 0x8
def T_YEAR : UInt8 := 0x9

/-- `is_cmos_update`. -/
def isCmosUpdate (r : Rtc) : Bool := r 0x0A &&& 0x80 ≠ 0

/-- `get_realtime_reg`.  The result is a `char`, which is signed. -/
def getRealtimeReg (r : Rtc) (reg : UInt8) : Int8 := (r reg).toInt8

/-- `from_bcd`, of a `char` promoted to `int`. -/
def fromBcd (val : Int8) : Int := val.toInt.tdiv 16 * 10 + val.toInt % 16

/-- `arch_clock`.  `cmos_wait` goes on as long as the clock is being updated: in a
state where it is, the function does not return. -/
def archClock (r : Rtc) : Option Datetime :=
  if isCmosUpdate r then none
  else some {
    sec := fromBcd (getRealtimeReg r T_SECOND)
    min := fromBcd (getRealtimeReg r T_MINUTE)
    hr := fromBcd (getRealtimeReg r T_HOUR)
    day := fromBcd (getRealtimeReg r T_DAY)
    mon := fromBcd (getRealtimeReg r T_MONTH)
    yr := fromBcd (getRealtimeReg r T_YEAR) }

/-- `time`. -/
def time (r : Rtc) : Option Int := (archClock r).map dt2t

/-- `boottime`, when `boot_time` was stored in the state `r0` of the clock. -/
def boottime (r0 r : Rtc) : Option Int := do
  let boot_time ← time r0
  let i ← time r
  some (i - boot_time)

/-! ## The clock and the calendar -/

/-- A number below 100 as two decimal digits of four bits. -/
def bcd (n : Nat) : UInt8 := UInt8.ofNat (n / 10 * 16 + n % 10)

/-- The clock holds a moment of the years 2000 to 2037, the year as its last two
digits, and is not being updated. -/
structure Rtc.Shows (r : Rtc) (m : Moment) : Prop where
  years : 2000 ≤ m.year ∧ m.year ≤ 2037
  still : isCmosUpdate r = false
  sec : r T_SECOND = bcd m.sec
  min : r T_MINUTE = bcd m.min
  hr : r T_HOUR = bcd m.hr
  day : r T_DAY = bcd m.day
  mon : r T_MONTH = bcd m.mon
  yr : r T_YEAR = bcd (m.year - 2000)

/-- A byte below 128 is the same as a `char`. -/
theorem fromBcd_bcd {n : Nat} (h : n < 80) : fromBcd (bcd n).toInt8 = n := by
  interval_cases n <;> rfl

theorem day_le (m : Moment) : m.day ≤ 31 := by
  refine m.day_range.2.trans ?_
  rw [Lib.daysIn]
  split
  · split <;> omega
  · split <;> omega

/-- The two digits of a year of this century are a leap year when the year is. -/
theorem IS_LEAP_YEAR_sub {year : Nat} (h : 2000 ≤ year ∧ year ≤ 2037) :
    IS_LEAP_YEAR (year - 2000 : Nat) = Lib.leapYear year := by
  obtain ⟨hlo, hhi⟩ := h
  interval_cases year <;> rfl

/-- The table of months is that of the calendar. -/
theorem dpm_eq_daysIn {year month : Nat} (h : month < 12) :
    (dpm (Lib.leapYear year)).getD month 0 = Lib.daysIn year month := by
  rw [Lib.daysIn]
  cases Lib.leapYear year
  · interval_cases month <;> rfl
  · interval_cases month <;> rfl

/-- What `arch_clock` reads out of the registers. -/
theorem archClock_of_shows {r : Rtc} {m : Moment} (h : r.Shows m) :
    archClock r = some {
      sec := m.sec, min := m.min, hr := m.hr, day := m.day, mon := m.mon
      yr := (m.year - 2000 : Nat) } := by
  have hyear := h.years
  have hmon := m.mon_range
  have hday := day_le m
  have hhr := m.hr_lt
  have hmin := m.min_lt
  have hsec := m.sec_lt
  simp only [archClock, getRealtimeReg, h.still, h.sec, h.min, h.hr, h.day, h.mon, h.yr]
  rw [fromBcd_bcd (by omega), fromBcd_bcd (by omega), fromBcd_bcd (by omega),
    fromBcd_bcd (by omega), fromBcd_bcd (by omega), fromBcd_bcd (by omega)]
  rfl

/-- The loop over the months adds up those of the calendar. -/
theorem foldl_months (year : Nat) (t : Int) {n : Nat} (hn : n ≤ 12) :
    (List.range n).foldl
      (fun t (month : Nat) => t + (dpm (Lib.leapYear year)).getD month 0 * SECONDS_PER_DAY) t =
      t + Lib.start (Lib.daysIn year) n * SECONDS_PER_DAY := by
  induction n with
  | zero => simp [Lib.start]
  | succ n ih =>
      rw [List.range_succ, List.foldl_append, ih (Nat.le_of_succ_le hn), List.foldl_cons,
        List.foldl_nil, dpm_eq_daysIn hn, Lib.start_succ]
      push_cast
      ring

/-- `time` gives the seconds since the start of the year. -/
theorem time_of_shows {r : Rtc} {m : Moment} (h : r.Shows m) :
    time r = some (m.secondOfYear : Int) := by
  have hmon := m.mon_range
  have hday := m.day_range.1
  have hyr : (((m.year - 2000 : Nat) : Int) - EPOCH_YEAR).toNat = 0 := by
    have := h.years
    simp only [EPOCH_YEAR]
    omega
  have hmonths : ((m.mon : Int) - 1).toNat = m.mon - 1 := by omega
  rw [time, archClock_of_shows h, Option.map_some, dt2t]
  simp only [hyr, hmonths, List.range_zero, List.foldl_nil, IS_LEAP_YEAR_sub h.years]
  rw [foldl_months m.year 0 (by omega)]
  simp only [Moment.secondOfYear, Moment.timeOfYear, Moment.dayOfYear, Lib.encode, Lib.volume,
    SECONDS_PER_DAY, SECONDS_PER_HOURS, SECONDS_PER_MINUTE]
  push_cast [hday]
  refine congrArg some ?_
  ring

/-- The seconds fit in a `time_t`. -/
theorem time_range {r : Rtc} {m : Moment} (h : r.Shows m) {t : Int} (ht : time r = some t) :
    0 ≤ t ∧ t < 2 ^ 31 := by
  obtain rfl := Option.some.inj ((time_of_shows h).symm.trans ht)
  have := m.secondOfYear_lt
  omega

/-! ## Forwards or backwards -/

/-- From `r1` to `r2` the time does not go back, nor does the time since the boot
in `r0`, which is not negative. -/
def Forward (r0 r1 r2 : Rtc) : Prop :=
  ∃ t1 t2 b1 b2, time r1 = some t1 ∧ time r2 = some t2 ∧ boottime r0 r1 = some b1 ∧
    boottime r0 r2 = some b2 ∧ t1 ≤ t2 ∧ b1 ≤ b2 ∧ 0 ≤ b1

/-- The later moment lies in the same year, or no earlier in its year than the
other does in its own. -/
def NoEarlierInYear (a b : Moment) : Prop := a.year = b.year ∨ a.timeOfYear ≤ b.timeOfYear

theorem secondOfYear_le_iff_of_le {a b : Moment} (h : a ≤ b) :
    a.secondOfYear ≤ b.secondOfYear ↔ NoEarlierInYear a b := by
  rw [Moment.secondOfYear_le_iff, NoEarlierInYear]
  constructor
  · exact Or.inr
  · rintro (hyear | hle)
    · exact (Moment.le_iff_of_year_eq hyear).mp h
    · exact hle

variable {r0 r1 r2 : Rtc} {m0 m1 m2 : Moment}

theorem boottime_of_shows (h0 : r0.Shows m0) (h1 : r1.Shows m1) :
    boottime r0 r1 = some ((m1.secondOfYear : Int) - m0.secondOfYear) := by
  rw [boottime, time_of_shows h0, time_of_shows h1]
  rfl

theorem forward_iff_secondOfYear (h0 : r0.Shows m0) (h1 : r1.Shows m1) (h2 : r2.Shows m2) :
    Forward r0 r1 r2 ↔
      m0.secondOfYear ≤ m1.secondOfYear ∧ m1.secondOfYear ≤ m2.secondOfYear := by
  constructor
  · rintro ⟨t1, t2, b1, b2, ht1, ht2, hb1, -, ht, -, hb⟩
    obtain rfl := Option.some.inj ((time_of_shows h1).symm.trans ht1)
    obtain rfl := Option.some.inj ((time_of_shows h2).symm.trans ht2)
    obtain rfl := Option.some.inj ((boottime_of_shows h0 h1).symm.trans hb1)
    omega
  · rintro ⟨h01, h12⟩
    exact ⟨_, _, _, _, time_of_shows h1, time_of_shows h2, boottime_of_shows h0 h1,
      boottime_of_shows h0 h2, by omega, by omega, by omega⟩

/-- The clock runs forwards exactly when no later reading lies earlier in its year
than the one before it does. -/
theorem forward_iff (h0 : r0.Shows m0) (h1 : r1.Shows m1) (h2 : r2.Shows m2)
    (h01 : m0 ≤ m1) (h12 : m1 ≤ m2) :
    Forward r0 r1 r2 ↔ NoEarlierInYear m0 m1 ∧ NoEarlierInYear m1 m2 := by
  rw [forward_iff_secondOfYear h0 h1 h2, secondOfYear_le_iff_of_le h01,
    secondOfYear_le_iff_of_le h12]

/-! A new year comes a second after the last one ends. -/

/-- The clock at a moment, with every other register zero. -/
def Rtc.ofMoment (m : Moment) : Rtc := fun reg =>
  if reg = T_SECOND then bcd m.sec else if reg = T_MINUTE then bcd m.min
  else if reg = T_HOUR then bcd m.hr else if reg = T_DAY then bcd m.day
  else if reg = T_MONTH then bcd m.mon else if reg = T_YEAR then bcd (m.year - 2000) else 0

theorem Rtc.ofMoment_shows {m : Moment} (h : 2000 ≤ m.year ∧ m.year ≤ 2037) :
    (Rtc.ofMoment m).Shows m :=
  ⟨h, by simp [isCmosUpdate, ofMoment, T_SECOND, T_MINUTE, T_HOUR, T_DAY, T_MONTH, T_YEAR],
    rfl, rfl, rfl, rfl, rfl, rfl⟩

/-- The last second of 2023. -/
def yearEnd : Moment := ⟨2023, 12, 31, 23, 59, 59, by decide, by decide, by decide, by decide,
  by decide⟩

/-- The first second of 2024. -/
def newYear : Moment := ⟨2024, 1, 1, 0, 0, 0, by decide, by decide, by decide, by decide,
  by decide⟩

theorem not_forward :
    ¬ ∀ (r0 r1 r2 : Rtc) (m0 m1 m2 : Moment), r0.Shows m0 → r1.Shows m1 → r2.Shows m2 →
      m0 ≤ m1 → m1 ≤ m2 → Forward r0 r1 r2 := by
  intro h
  have hold := Rtc.ofMoment_shows (m := yearEnd) (by decide)
  have hnew := Rtc.ofMoment_shows (m := newYear) (by decide)
  have hback := (forward_iff_secondOfYear hold hold hnew).mp
    (h _ _ _ _ _ _ hold hold hnew (by decide) (by decide))
  exact absurd hback.2 (by decide)

theorem forward_iff_newYear :
    Forward (Rtc.ofMoment yearEnd) (Rtc.ofMoment yearEnd) (Rtc.ofMoment newYear) ↔
      NoEarlierInYear yearEnd yearEnd ∧ NoEarlierInYear yearEnd newYear :=
  forward_iff (Rtc.ofMoment_shows (by decide)) (Rtc.ofMoment_shows (by decide))
    (Rtc.ofMoment_shows (by decide)) (by decide) (by decide)

end StardustOS.Time
