import Mathlib.Algebra.BigOperators.Intervals
import Mathlib.Algebra.Order.BigOperators.Group.Finset
import Mathlib.Data.List.Lex
import Mathlib.Tactic.IntervalCases

/-!
# The Gregorian calendar

A `Moment` is a date of the calendar with a time of day, to the second.  Moments
are ordered as their fields are written, from the year down.

Two facts about counting carry the rest.  `start_add_lt` is about a row of
lengths, such as those of the months of a year: a place in one of them comes
before every place in a later one.  `encode_le_encode` is about digits of
different radices, such as hours, minutes and seconds: numbers compare as their
digits do.  Together they give `secondOfYear_le_iff`, that the seconds since the
start of a year compare as day of the year, hour, minute and second do.
-/

namespace StardustOS.Lib

/-! ## Rows of lengths -/

/-- Where the `i`-th length of a row begins. -/
def start (len : Nat → Nat) (i : Nat) : Nat := ∑ j ∈ Finset.range i, len j

variable {len : Nat → Nat}

theorem start_succ (len : Nat → Nat) (i : Nat) : start len (i + 1) = start len i + len i :=
  Finset.sum_range_succ len i

theorem start_mono : Monotone (start len) :=
  monotone_nat_of_le_succ fun i => (Nat.le_add_right ..).trans (start_succ len i).ge

/-- A place in one length comes before every place in a later one. -/
theorem start_add_lt {i j x y : Nat} (hij : i < j) (hx : x < len i) :
    start len i + x < start len j + y := by
  have hnext : start len (i + 1) ≤ start len j := start_mono hij
  rw [start_succ] at hnext
  omega

/-- The places compare as the lengths they are in and then as they do there. -/
theorem start_add_lt_iff {i j x y : Nat} (hx : x < len i) (hy : y < len j) :
    start len i + x < start len j + y ↔ i < j ∨ i = j ∧ x < y := by
  rcases Nat.lt_trichotomy i j with hij | rfl | hji
  · simp [hij, start_add_lt hij hx]
  · simp
  · have hlt : start len j + y < start len i + x := start_add_lt hji hy
    constructor
    · intro h
      exact absurd h hlt.le.not_gt
    · rintro (h | ⟨rfl, -⟩)
      · exact absurd h hji.le.not_gt
      · exact absurd hji (Nat.lt_irrefl _)

/-! ## Digits of different radices -/

/-- The order of digits goes by the first that differs. -/
theorem cons_le_cons_iff {d e : Nat} {ds es : List Nat} :
    d :: ds ≤ e :: es ↔ d < e ∨ d = e ∧ ds ≤ es := by
  rw [← not_lt, List.cons_lt_cons_iff, ← not_lt (a := es)]
  rcases Nat.lt_trichotomy d e with hlt | rfl | hgt
  · simp [hlt, hlt.le, hlt.ne']
  · simp
  · simp [hgt, hgt.le, hgt.ne']

/-- How many numbers have digits of the radices. -/
def volume : List Nat → Nat
  | [] => 1
  | b :: bs => b * volume bs

/-- The number with the digits, the most significant first. -/
def encode : List Nat → List Nat → Nat
  | _ :: bs, d :: ds => d * volume bs + encode bs ds
  | _, _ => 0

/-- Digits of the radices. -/
def Digits : List Nat → List Nat → Prop := List.Forall₂ fun b d => d < b

theorem encode_lt {bs ds : List Nat} (h : Digits bs ds) : encode bs ds < volume bs := by
  induction h with
  | nil => exact Nat.one_pos
  | @cons b d bs ds hd _ ih =>
      calc d * volume bs + encode bs ds
        _ < d * volume bs + volume bs := Nat.add_lt_add_left ih _
        _ = (d + 1) * volume bs := (Nat.succ_mul ..).symm
        _ ≤ b * volume bs := Nat.mul_le_mul_right _ hd

/-- A smaller leading digit makes a smaller number. -/
theorem encode_lt_of_head {b d e : Nat} {bs ds es : List Nat} (hd : Digits bs ds) (hde : d < e) :
    encode (b :: bs) (d :: ds) < encode (b :: bs) (e :: es) :=
  calc d * volume bs + encode bs ds
    _ < d * volume bs + volume bs := Nat.add_lt_add_left (encode_lt hd) _
    _ = (d + 1) * volume bs := (Nat.succ_mul ..).symm
    _ ≤ e * volume bs := Nat.mul_le_mul_right _ hde
    _ ≤ e * volume bs + encode bs es := Nat.le_add_right ..

theorem encode_le_encode {bs ds es : List Nat} (hd : Digits bs ds) (he : Digits bs es) :
    encode bs ds ≤ encode bs es ↔ ds ≤ es := by
  induction hd generalizing es with
  | nil =>
      cases he
      simp
  | @cons b d bs ds hdb hds ih =>
      cases he with
      | @cons _ e _ es heb hes =>
          rw [cons_le_cons_iff]
          rcases Nat.lt_trichotomy d e with hlt | rfl | hgt
          · simp [hlt, (encode_lt_of_head hds hlt).le]
          · simpa [encode] using ih hes
          · have hlt : encode (b :: bs) (e :: es) < encode (b :: bs) (d :: ds) :=
              encode_lt_of_head hes hgt
            simp [hlt.not_ge, hgt.le.not_gt, hgt.ne']

/-! ## Dates -/

/-- The leap years. -/
def leapYear (y : Nat) : Bool := y % 4 = 0 ∧ y % 100 ≠ 0 ∨ y % 400 = 0

/-- The days of a month, the months counted from zero. -/
def daysIn (year month : Nat) : Nat :=
  if month = 1 then (if leapYear year then 29 else 28)
  else if month = 3 ∨ month = 5 ∨ month = 8 ∨ month = 10 then 30 else 31

/-- A date and a time of day. -/
structure Moment where
  year : Nat
  mon : Nat
  day : Nat
  hr : Nat
  min : Nat
  sec : Nat
  mon_range : 1 ≤ mon ∧ mon ≤ 12
  day_range : 1 ≤ day ∧ day ≤ daysIn year (mon - 1)
  hr_lt : hr < 24
  min_lt : min < 60
  sec_lt : sec < 60

namespace Moment

/-- The fields within the year, as they are written. -/
def fields (m : Moment) : List Nat := [m.mon, m.day, m.hr, m.min, m.sec]

/-- The order of the calendar. -/
instance : LE Moment := ⟨fun a b => a.year :: a.fields ≤ b.year :: b.fields⟩

instance (a b : Moment) : Decidable (a ≤ b) :=
  inferInstanceAs (Decidable (a.year :: a.fields ≤ b.year :: b.fields))

/-- The days of the year before the date. -/
def dayOfYear (m : Moment) : Nat :=
  start (daysIn m.year) (m.mon - 1) + (m.day - 1)

/-- The day of the year and the time of day. -/
def timeOfYear (m : Moment) : List Nat := [m.dayOfYear, m.hr, m.min, m.sec]

/-- The seconds since the start of the year. -/
def secondOfYear (m : Moment) : Nat := encode [366, 24, 60, 60] m.timeOfYear

variable {a b : Moment}

theorem le_iff : a ≤ b ↔ a.year < b.year ∨ a.year = b.year ∧ a.fields ≤ b.fields :=
  cons_le_cons_iff

theorem day_lt (m : Moment) : m.day - 1 < daysIn m.year (m.mon - 1) := by
  have hday := m.day_range
  omega

/-- Within a year the days are counted as months and days of the month go. -/
theorem dayOfYear_lt_iff (hyear : a.year = b.year) :
    a.dayOfYear < b.dayOfYear ↔ a.mon < b.mon ∨ a.mon = b.mon ∧ a.day < b.day := by
  have ha := a.day_lt
  rw [hyear] at ha
  rw [dayOfYear, dayOfYear, hyear, start_add_lt_iff ha b.day_lt]
  have hmons := And.intro a.mon_range b.mon_range
  have hdays := And.intro a.day_range.1 b.day_range.1
  omega

theorem dayOfYear_eq_iff (hyear : a.year = b.year) :
    a.dayOfYear = b.dayOfYear ↔ a.mon = b.mon ∧ a.day = b.day := by
  have hab := dayOfYear_lt_iff hyear
  have hba := dayOfYear_lt_iff hyear.symm
  omega

/-- In one year the calendar goes as day of the year and time of day. -/
theorem le_iff_of_year_eq (hyear : a.year = b.year) : a ≤ b ↔ a.timeOfYear ≤ b.timeOfYear := by
  rw [le_iff, timeOfYear, timeOfYear, cons_le_cons_iff, dayOfYear_lt_iff hyear,
    dayOfYear_eq_iff hyear, fields, fields, cons_le_cons_iff, cons_le_cons_iff]
  simp only [hyear, Nat.lt_irrefl, false_or, true_and]
  tauto

end Moment

/-- A year has 366 days at most. -/
theorem start_daysIn_le (year : Nat) : start (daysIn year) 12 ≤ 366 := by
  simp only [start, Finset.sum_range_succ, Finset.sum_range_zero, daysIn]
  norm_num
  split
  · omega
  · omega

namespace Moment

variable {a b : Moment}

theorem dayOfYear_lt (m : Moment) : m.dayOfYear < 366 := by
  have hmon : m.mon - 1 < 12 := by
    have := m.mon_range
    omega
  have hend : m.dayOfYear < start (daysIn m.year) 12 + 0 := start_add_lt hmon m.day_lt
  have hyear := start_daysIn_le m.year
  omega

theorem digits_timeOfYear (m : Moment) : Digits [366, 24, 60, 60] m.timeOfYear :=
  .cons m.dayOfYear_lt (.cons m.hr_lt (.cons m.min_lt (.cons m.sec_lt .nil)))

/-- The seconds since the start of a year compare as day of the year, hour,
minute and second do. -/
theorem secondOfYear_le_iff : a.secondOfYear ≤ b.secondOfYear ↔ a.timeOfYear ≤ b.timeOfYear :=
  encode_le_encode a.digits_timeOfYear b.digits_timeOfYear

theorem secondOfYear_lt (m : Moment) : m.secondOfYear < 2 ^ 31 := by
  have hlt : m.secondOfYear < volume [366, 24, 60, 60] := encode_lt m.digits_timeOfYear
  have hvol : volume [366, 24, 60, 60] = 31622400 := by decide
  omega

end Moment

end StardustOS.Lib
