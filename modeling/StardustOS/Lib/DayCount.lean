import StardustOS.Lib.Calendar

/-!
# Counting days and seconds

`Date.next` is the day after a date and `Moment.next` the second after a moment.
`Date.number` numbers the days from the first of January of a year on, by the
lengths of the years and of the months, and `Moment.seconds` the seconds.

The next day has the next number (`Date.number_next`), so the number of a date is how
many days it is after the first (`Date.iterate_next`), and the next second the next
number of seconds (`Moment.seconds_next`).  Numbers compare as the calendar does
(`Moment.seconds_lt_iff`).
-/

namespace StardustOS.Lib

/-! ## Dates -/

/-- A day of the calendar. -/
structure Date where
  year : Nat
  mon : Nat
  day : Nat
  mon_range : 1 ≤ mon ∧ mon ≤ 12
  day_range : 1 ≤ day ∧ day ≤ daysIn year (mon - 1)

theorem hr_midnight : 0 < 24 := by omega

theorem min_midnight : 0 < 60 := by omega

/-- The start of a day. -/
def Moment.midnight (d : Date) : Moment :=
  ⟨d.year, d.mon, d.day, 0, 0, 0, d.mon_range, d.day_range, hr_midnight, min_midnight,
    min_midnight⟩

/-- The days of a year. -/
def yearLength (year : Nat) : Nat := if leapYear year then 366 else 365

theorem daysIn_pos (year month : Nat) : 1 ≤ daysIn year month := by
  rw [daysIn]
  split
  · split
    · omega
    · omega
  · split
    · omega
    · omega

theorem daysIn_december (year : Nat) : daysIn year 11 = 31 := rfl

/-- The months make up the year. -/
theorem start_daysIn (year : Nat) : start (daysIn year) 12 = yearLength year := by
  simp only [start, Finset.sum_range_succ, Finset.sum_range_zero, daysIn, yearLength]
  cases leapYear year with
  | false => rfl
  | true => rfl

namespace Date

theorem mon_january : 1 ≤ 1 ∧ 1 ≤ 12 := by omega

/-- The first of January. -/
def newYear (year : Nat) : Date := ⟨year, 1, 1, mon_january, le_rfl, daysIn_pos year 0⟩

/-- The day after. -/
def next (d : Date) : Date :=
  if hday : d.day < daysIn d.year (d.mon - 1) then
    ⟨d.year, d.mon, d.day + 1, d.mon_range, Nat.le_add_left .., hday⟩
  else if hmon : d.mon < 12 then
    ⟨d.year, d.mon + 1, 1, ⟨Nat.le_add_left .., hmon⟩, le_rfl, daysIn_pos ..⟩
  else newYear (d.year + 1)

/-- The days of the year before the date. -/
def dayOfYear (d : Date) : Nat := start (daysIn d.year) (d.mon - 1) + (d.day - 1)

/-- The days before the date from the start of the year `first` on. -/
def number (first : Nat) (d : Date) : Nat :=
  start (fun i => yearLength (first + i)) (d.year - first) + d.dayOfYear

variable {first : Nat} {a b d : Date}

/-- Within a year the days are counted as months and days of the month go. -/
theorem dayOfYear_lt_iff (hyear : a.year = b.year) :
    a.dayOfYear < b.dayOfYear ↔ a.mon < b.mon ∨ a.mon = b.mon ∧ a.day < b.day :=
  Moment.dayOfYear_lt_iff (a := .midnight a) (b := .midnight b) hyear

theorem dayOfYear_eq_iff (hyear : a.year = b.year) :
    a.dayOfYear = b.dayOfYear ↔ a.mon = b.mon ∧ a.day = b.day :=
  Moment.dayOfYear_eq_iff (a := .midnight a) (b := .midnight b) hyear

theorem dayOfYear_lt (d : Date) : d.dayOfYear < yearLength d.year := by
  have hmon : d.mon - 1 < 12 := by
    have := d.mon_range
    omega
  have hend : d.dayOfYear < start (daysIn d.year) 12 + 0 :=
    start_add_lt hmon (Moment.midnight d).day_lt
  rwa [start_daysIn] at hend

/-- The days are numbered as years and days of the year go. -/
theorem number_lt_iff (ha : first ≤ a.year) (hb : first ≤ b.year) :
    a.number first < b.number first ↔
      a.year < b.year ∨ a.year = b.year ∧ a.dayOfYear < b.dayOfYear := by
  have hday : ∀ {d : Date}, first ≤ d.year →
      d.dayOfYear < yearLength (first + (d.year - first)) := by
    intro d hd
    rw [Nat.add_sub_cancel' hd]
    exact d.dayOfYear_lt
  rw [number, number]
  refine Iff.trans (start_add_lt_iff (hday ha) (hday hb)) ?_
  omega

theorem first_le_next (h : first ≤ d.year) : first ≤ d.next.year := by
  rw [next]
  split
  · exact h
  · split
    · exact h
    · exact Nat.le_succ_of_le h

/-- The day after has the next number. -/
theorem number_next (h : first ≤ d.year) : d.next.number first = d.number first + 1 := by
  have hday := d.day_range
  have hmon := d.mon_range
  rw [next]
  split
  · simp only [number, dayOfYear]
    omega
  · -- the last day of a month
    rename_i hlast
    split
    · have hstart := start_succ (daysIn d.year) (d.mon - 1)
      rw [Nat.sub_add_cancel hmon.1] at hstart
      simp only [number, dayOfYear, Nat.add_sub_cancel]
      omega
    · -- the last day of a year
      rename_i hdec
      have hmon12 : d.mon = 12 := by omega
      have hstart := start_succ (fun i => yearLength (first + i)) (d.year - first)
      have hyear := start_succ (daysIn d.year) 11
      rw [start_daysIn, daysIn_december] at hyear
      rw [hmon12, daysIn_december] at hlast hday
      simp only [Nat.add_sub_cancel' h] at hstart
      have hsub : d.year + 1 - first = d.year - first + 1 := Nat.sub_add_comm h
      have hzero : start (daysIn (d.year + 1)) 0 = 0 := rfl
      simp only [number, dayOfYear, newYear, hmon12, hsub, Nat.sub_self, hzero]
      show _ = _ + (start (daysIn d.year) 11 + (d.day - 1)) + 1
      omega

theorem number_newYear (first : Nat) : (newYear first).number first = 0 := by
  simp [number, dayOfYear, newYear, start]

/-- Dates with one number are one date. -/
theorem eq_of_number (ha : first ≤ a.year) (hb : first ≤ b.year)
    (h : a.number first = b.number first) : a = b := by
  have hab := (number_lt_iff ha hb).not.mp h.not_lt
  have hba := (number_lt_iff hb ha).not.mp h.not_gt
  have hyear : a.year = b.year := by omega
  obtain ⟨hmon, hday⟩ := (dayOfYear_eq_iff hyear).mp (by omega)
  cases a with
  | mk year mon day =>
      cases b with
      | mk year' mon' day' =>
          cases hyear
          cases hmon
          cases hday
          rfl

theorem iterate_next_number (first n : Nat) :
    first ≤ (next^[n] (newYear first)).year ∧ (next^[n] (newYear first)).number first = n := by
  induction n with
  | zero => exact ⟨le_rfl, number_newYear first⟩
  | succ n ih =>
      rw [Function.iterate_succ_apply']
      exact ⟨first_le_next ih.1, by rw [number_next ih.1, ih.2]⟩

/-- The number of a date is how many days it is after the first. -/
theorem iterate_next (h : first ≤ d.year) : next^[d.number first] (newYear first) = d := by
  obtain ⟨hyear, hnumber⟩ := iterate_next_number first (d.number first)
  exact eq_of_number hyear h hnumber

end Date

/-! ## Moments -/

namespace Moment

/-- The day of a moment. -/
def date (m : Moment) : Date := ⟨m.year, m.mon, m.day, m.mon_range, m.day_range⟩

/-- The seconds before the moment from the start of the year `first` on. -/
def seconds (first : Nat) (m : Moment) : Nat :=
  86400 * m.date.number first + 3600 * m.hr + 60 * m.min + m.sec

/-- The second after. -/
def next (m : Moment) : Moment :=
  if hsec : m.sec + 1 < 60 then { m with sec := m.sec + 1, sec_lt := hsec }
  else if hmin : m.min + 1 < 60 then
    { m with min := m.min + 1, sec := 0, min_lt := hmin, sec_lt := by omega }
  else if hhr : m.hr + 1 < 24 then
    { m with hr := m.hr + 1, min := 0, sec := 0, hr_lt := hhr, min_lt := by omega
             sec_lt := by omega }
  else midnight m.date.next

instance : LT Moment := ⟨fun a b => a.year :: a.fields < b.year :: b.fields⟩

variable {first : Nat} {a b m : Moment}

theorem lt_iff_not_le : a < b ↔ ¬ b ≤ a :=
  (not_le (a := b.year :: b.fields) (b := a.year :: a.fields)).symm

theorem first_le_next (h : first ≤ m.year) : first ≤ m.next.year := by
  rw [next]
  split
  · exact h
  · split
    · exact h
    · split
      · exact h
      · exact Date.first_le_next (d := m.date) h

/-- The second after has the next number. -/
theorem seconds_next (h : first ≤ m.year) : m.next.seconds first = m.seconds first + 1 := by
  have hsec := m.sec_lt
  have hmin := m.min_lt
  have hhr := m.hr_lt
  rw [next]
  split
  · simp only [seconds, date]
    omega
  · split
    · simp only [seconds, date]
      omega
    · split
      · simp only [seconds, date]
        omega
      · have hday := Date.number_next (d := m.date) h
        have hdate : (midnight m.date.next).date = m.date.next := rfl
        simp only [seconds, hdate, hday]
        simp only [midnight]
        omega

/-- The day and the time of day are digits of the number of the second. -/
theorem seconds_eq_encode (b : Nat) :
    m.seconds first = encode [b, 24, 60, 60] [m.date.number first, m.hr, m.min, m.sec] := by
  simp only [seconds, encode, volume]
  omega

theorem digits {d : Nat} (h : m.date.number first < d) :
    Digits [d, 24, 60, 60] [m.date.number first, m.hr, m.min, m.sec] :=
  .cons h (.cons m.hr_lt (.cons m.min_lt (.cons m.sec_lt .nil)))

theorem number_lt_iff (ha : first ≤ a.year) (hb : first ≤ b.year) :
    a.date.number first < b.date.number first ↔
      a.year < b.year ∨ a.year = b.year ∧ a.dayOfYear < b.dayOfYear :=
  Date.number_lt_iff (a := a.date) (b := b.date) ha hb

/-- Seconds are numbered in the order of the calendar. -/
theorem seconds_le_iff (ha : first ≤ a.year) (hb : first ≤ b.year) :
    a.seconds first ≤ b.seconds first ↔ a ≤ b := by
  -- a radix with room for both days
  have hmax := le_max_left (a.date.number first) (b.date.number first)
  have hmax' := le_max_right (a.date.number first) (b.date.number first)
  rw [seconds_eq_encode, seconds_eq_encode,
    encode_le_encode (digits (Nat.lt_succ_of_le hmax)) (digits (Nat.lt_succ_of_le hmax')),
    cons_le_cons_iff]
  have hlt := number_lt_iff ha hb
  have hgt := number_lt_iff hb ha
  rcases Nat.lt_trichotomy a.year b.year with hyear | hyear | hyear
  · have hnumber : a.date.number first < b.date.number first := hlt.mpr (Or.inl hyear)
    simp [le_iff, hyear, hnumber]
  · have hday : a.date.number first < b.date.number first ↔ a.dayOfYear < b.dayOfYear := by
      simp [hlt, hyear]
    have heq : a.date.number first = b.date.number first ↔ a.dayOfYear = b.dayOfYear := by
      simp only [hyear, Nat.lt_irrefl, false_or, true_and] at hgt
      omega
    have htime := le_iff_of_year_eq hyear
    rw [timeOfYear, timeOfYear, cons_le_cons_iff] at htime
    rw [htime, hday, heq]
  · have hnumber : b.date.number first < a.date.number first := hgt.mpr (Or.inl hyear)
    simp [le_iff, hyear.not_gt, hyear.ne', hnumber.not_gt, hnumber.ne']

theorem seconds_lt_iff (ha : first ≤ a.year) (hb : first ≤ b.year) :
    a.seconds first < b.seconds first ↔ a < b := by
  rw [lt_iff_not_le, ← seconds_le_iff hb ha, not_le]

end Moment

end StardustOS.Lib
