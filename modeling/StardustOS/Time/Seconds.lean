import StardustOS.Lib.DayCount
import StardustOS.Time.Clock

/-!
# From the calendar to seconds

`dt2t` adds up the days of the years since 1970, those of the months before the date
and the days of the month, and the time of day.  Here it is computed as the code
does it, with an `int` and a `time_t` of 32 bits, whose overflow is undefined.  Where there
is none it is the `dt2t` of `Time.Clock` (`dt2t_of_dt2t32`).

Each loop adds up a row of lengths (`addDays_eq`), so the sum is the number of the
second in the calendar of `Lib.DayCount` (`dt2t32_eq`), and what is known of that holds
of `dt2t` as long as the sum is below 2^31 (`dt2t_seconds`).
-/

namespace StardustOS.Time

open Lib (Date Moment)

/-! ## The source -/

/-- The value, if 32 bits hold it. -/
def int32 (x : Int) : Option Int := if -2147483648 ≤ x ∧ x ≤ 2147483647 then some x else none

/-- `t += s`. -/
def addTo (t s : Int) : Option Int := do
  let s ← int32 s
  int32 (t + s)

/-- A loop that adds the days of each turn to `t`, in seconds. -/
def addDays (days : Nat → Option Int) (n : Nat) (t : Int) : Option Int :=
  (List.range n).foldlM (fun t i => do addTo t ((← days i) * SECONDS_PER_DAY)) t

/-- `dt2t`, in 32 bits.  The tables are not read past their ends. -/
def dt2t32 (dt : Datetime) : Option Int := do
  let t ← addDays (fun i => some (dpy (IS_LEAP_YEAR (EPOCH_YEAR + i))))
    (dt.yr - EPOCH_YEAR).toNat 0
  let t ← addDays (fun month => (dpm (IS_LEAP_YEAR dt.yr))[month]?) (dt.mon - 1).toNat t
  let t ← addTo t ((dt.day - 1) * SECONDS_PER_DAY)
  let t ← addTo t (dt.hr * SECONDS_PER_HOURS)
  let t ← addTo t (dt.min * SECONDS_PER_MINUTE)
  addTo t dt.sec

/-! ## The sum without bounds -/

theorem int32_eq_some {x y : Int} (h : int32 x = some y) : x = y :=
  Option.some.inj (Option.ite_none_right_eq_some.mp h).2

theorem addTo_eq_some {t s t' : Int} (h : addTo t s = some t') : t + s = t' := by
  obtain ⟨s', hs, h⟩ := Option.bind_eq_some_iff.mp h
  rw [int32_eq_some hs]
  exact int32_eq_some h

/-- A loop that does not overflow adds what it adds in `Int`. -/
theorem foldl_of_addDays {days : Nat → Option Int} {f : Nat → Int}
    (hf : ∀ i d, days i = some d → f i = d) {n : Nat} {t t' : Int}
    (h : addDays days n t = some t') :
    (List.range n).foldl (fun t i => t + f i * SECONDS_PER_DAY) t = t' := by
  induction n generalizing t' with
  | zero => exact Option.some.inj h
  | succ n ih =>
      rw [addDays, List.range_succ, List.foldlM_append] at h
      obtain ⟨t₁, hprev, h⟩ := Option.bind_eq_some_iff.mp h
      rw [List.range_succ, List.foldl_append, ih hprev]
      simp only [List.foldlM_cons, List.foldlM_nil, Option.bind_eq_bind, Option.pure_def,
        Option.bind_fun_some] at h
      obtain ⟨d, hd, h⟩ := Option.bind_eq_some_iff.mp h
      rw [List.foldl_cons, List.foldl_nil, hf n d hd]
      exact addTo_eq_some h

/-- Where `dt2t` does not overflow in 32 bits, it is the sum that `time` is made with. -/
theorem dt2t_of_dt2t32 {dt : Datetime} {t : Int} (h : dt2t32 dt = some t) : dt2t dt = t := by
  obtain ⟨t₁, hyears, h⟩ := Option.bind_eq_some_iff.mp h
  obtain ⟨t₂, hmonths, h⟩ := Option.bind_eq_some_iff.mp h
  obtain ⟨t₃, hday, h⟩ := Option.bind_eq_some_iff.mp h
  obtain ⟨t₄, hhour, h⟩ := Option.bind_eq_some_iff.mp h
  obtain ⟨t₅, hmin, hsec⟩ := Option.bind_eq_some_iff.mp h
  have hyears := foldl_of_addDays (f := fun i => dpy (IS_LEAP_YEAR (EPOCH_YEAR + i)))
    (fun _ _ => Option.some.inj) hyears
  have hmonths := foldl_of_addDays (f := fun month => (dpm (IS_LEAP_YEAR dt.yr)).getD month 0)
    (fun i d hd => by rw [List.getD_eq_getElem?_getD, hd, Option.getD_some]) hmonths
  rw [dt2t]
  simp only [hyears, hmonths, addTo_eq_some hday, addTo_eq_some hhour, addTo_eq_some hmin,
    addTo_eq_some hsec]

/-! ## The tables and the calendar -/

/-- The record of a moment. -/
def Datetime.ofMoment (m : Moment) : Datetime where
  sec := m.sec
  min := m.min
  hr := m.hr
  day := m.day
  mon := m.mon
  yr := m.year

theorem IS_LEAP_YEAR_eq (year : Nat) : IS_LEAP_YEAR year = Lib.leapYear year := by
  have hmod : ∀ k : Nat, (year : Int).tmod (k : Int) = ((year % k : Nat) : Int) := fun k => rfl
  rw [IS_LEAP_YEAR, Lib.leapYear]
  refine decide_eq_decide.mpr ?_
  have h4 := hmod 4
  have h100 := hmod 100
  have h400 := hmod 400
  push_cast at h4 h100 h400
  rw [h4, h100, h400]
  omega

theorem dpy_eq (year : Nat) : dpy (Lib.leapYear year) = Lib.yearLength year := by
  rw [Lib.yearLength]
  cases Lib.leapYear year with
  | false => rfl
  | true => rfl

theorem dpm_getElem? {year month : Nat} (h : month < 12) :
    (dpm (Lib.leapYear year))[month]? = some (Lib.daysIn year month : Int) := by
  rw [← dpm_eq_daysIn h, List.getD_eq_getElem?_getD]
  have hlength : (dpm (Lib.leapYear year)).length = 12 := by
    cases Lib.leapYear year with
    | false => rfl
    | true => rfl
  rw [List.getElem?_eq_getElem (hlength ▸ h)]
  rfl

/-! ## Sums that fit -/

theorem int32_ofNat {n : Nat} (h : n < 2 ^ 31) : int32 n = some (n : Int) := by
  rw [int32, if_pos (by omega)]

theorem addTo_ofNat {t s : Nat} (h : t + s < 2 ^ 31) : addTo t s = some ((t + s : Nat) : Int) := by
  have hs : s < 2 ^ 31 := (Nat.le_add_left s t).trans_lt h
  simp only [addTo, int32_ofNat hs, Option.bind_eq_bind, Option.bind_some]
  rw [← Nat.cast_add, int32_ofNat h]

/-- So many of a unit of seconds. -/
theorem addTo_mul {t n unit : Nat} (h : t + n * unit < 2 ^ 31) :
    addTo t ((n : Int) * (unit : Int)) = some ((t + n * unit : Nat) : Int) := by
  rw [← Nat.cast_mul, addTo_ofNat h]

theorem seconds_per : SECONDS_PER_DAY = (86400 : Nat) ∧ SECONDS_PER_HOURS = (3600 : Nat) ∧
    SECONDS_PER_MINUTE = (60 : Nat) := by
  simp only [SECONDS_PER_DAY, SECONDS_PER_HOURS, SECONDS_PER_MINUTE]
  norm_num

/-- A loop adds up a row of lengths. -/
theorem addDays_eq {days : Nat → Option Int} {len : Nat → Nat} {n : Nat}
    (hdays : ∀ i < n, days i = some (len i : Int)) {t k : Nat} (hk : SECONDS_PER_DAY = (k : Int))
    (hfit : t + Lib.start len n * k < 2 ^ 31) :
    addDays days n t = some ((t + Lib.start len n * k : Nat) : Int) := by
  induction n with
  | zero => simp [addDays, Lib.start]
  | succ n ih =>
      rw [Lib.start_succ, Nat.add_mul, ← Nat.add_assoc] at hfit ⊢
      have hn := ih (fun i hi => hdays i (Nat.lt_succ_of_lt hi)) (by omega)
      rw [addDays] at hn ⊢
      rw [List.range_succ, List.foldlM_append, hn]
      simp only [Option.bind_eq_bind, Option.bind_some, List.foldlM_cons, List.foldlM_nil,
        hdays n (Nat.lt_succ_self n), hk, addTo_mul hfit, Option.pure_def]

/-- A sum of seconds that fits is what `dt2t` gives. -/
theorem dt2t32_eq {m : Moment} (hyear : 1970 ≤ m.year) (hfit : m.seconds 1970 < 2 ^ 31) :
    dt2t32 (Datetime.ofMoment m) = some (m.seconds 1970 : Int) := by
  have hmon := m.mon_range
  have hdayRange := m.day_range
  obtain ⟨year, hy⟩ := Nat.exists_eq_add_of_le hyear
  have hturns : ((m.year : Int) - EPOCH_YEAR).toNat = year := by
    simp only [EPOCH_YEAR]
    omega
  have hmonths : ((m.mon : Int) - 1).toNat = m.mon - 1 := by omega
  have hdays : (m.day : Int) - 1 = (m.day - 1 : Nat) := by omega
  have hsub : m.year - 1970 = year := by omega
  have hlength : ∀ i < year, some (dpy (IS_LEAP_YEAR (EPOCH_YEAR + i))) =
      some (Lib.yearLength (1970 + i) : Int) := by
    intro i _
    have hcast : EPOCH_YEAR + (i : Int) = ((1970 + i : Nat) : Int) := by
      push_cast
      rfl
    rw [hcast, IS_LEAP_YEAR_eq, dpy_eq]
  have hmonth : ∀ i < m.mon - 1, (dpm (IS_LEAP_YEAR m.year))[i]? =
      some (Lib.daysIn m.year i : Int) := by
    intro i hi
    rw [IS_LEAP_YEAR_eq, dpm_getElem? (by omega)]
  obtain ⟨perDay, hperDay, hday⟩ : ∃ k : Nat, 86400 = k ∧ SECONDS_PER_DAY = k :=
    ⟨86400, rfl, seconds_per.1⟩
  obtain ⟨perHour, hperHour, hhour⟩ : ∃ k : Nat, 3600 = k ∧ SECONDS_PER_HOURS = k :=
    ⟨3600, rfl, seconds_per.2.1⟩
  obtain ⟨perMinute, hperMinute, hminute⟩ : ∃ k : Nat, 60 = k ∧ SECONDS_PER_MINUTE = k :=
    ⟨60, rfl, seconds_per.2.2⟩
  -- the sum after each line
  let t1 := 0 + Lib.start (fun i => Lib.yearLength (1970 + i)) year * perDay
  let t2 := t1 + Lib.start (Lib.daysIn m.year) (m.mon - 1) * perDay
  let t3 := t2 + (m.day - 1) * perDay
  let t4 := t3 + m.hr * perHour
  let t5 := t4 + m.min * perMinute
  have hsum : m.seconds 1970 = t5 + m.sec := by
    simp only [Moment.seconds, Date.number, Date.dayOfYear, Moment.date, hsub, hperDay, hperHour,
      hperMinute, t5, t4, t3, t2, t1]
    ring
  rw [hsum] at hfit ⊢
  have h1 : addDays _ year ((0 : Nat) : Int) = some (t1 : Int) :=
    addDays_eq hlength hday (show t1 < 2 ^ 31 by omega)
  have h2 : addDays _ (m.mon - 1) (t1 : Int) = some (t2 : Int) :=
    addDays_eq hmonth hday (show t2 < 2 ^ 31 by omega)
  have h3 : addTo t2 (((m.day - 1 : Nat) : Int) * perDay) = some (t3 : Int) :=
    addTo_mul (show t3 < 2 ^ 31 by omega)
  have h4 : addTo t3 (m.hr * perHour) = some (t4 : Int) :=
    addTo_mul (show t4 < 2 ^ 31 by omega)
  have h5 : addTo t4 (m.min * perMinute) = some (t5 : Int) :=
    addTo_mul (show t5 < 2 ^ 31 by omega)
  rw [Nat.cast_zero] at h1
  simp only [dt2t32, Datetime.ofMoment, hturns, hmonths, hdays, hday, hhour, hminute, h1, h2, h3,
    h4, h5, Option.bind_eq_bind, Option.bind_some]
  rw [addTo_ofNat hfit]

/-! ## Days, order and steps -/

/-- The days are those that one goes from day to day. -/
theorem dt2t32_days {m : Moment} (hyear : 1970 ≤ m.year) :
    ∃ days, Date.next^[days] (Date.newYear 1970) = m.date ∧
      (86400 * days + 3600 * m.hr + 60 * m.min + m.sec < 2 ^ 31 →
        dt2t32 (Datetime.ofMoment m) =
          some ((86400 * days + 3600 * m.hr + 60 * m.min + m.sec : Nat) : Int)) := by
  refine ⟨m.date.number 1970, Date.iterate_next hyear, ?_⟩
  intro hfit
  exact dt2t32_eq hyear hfit

/-- A later moment has more seconds. -/
theorem dt2t32_lt {a b : Moment} (hyear : 1970 ≤ a.year) (hlt : a < b)
    (hfit : b.seconds 1970 < 2 ^ 31) :
    ∃ s t, dt2t32 (Datetime.ofMoment a) = some s ∧ dt2t32 (Datetime.ofMoment b) = some t ∧
      s < t := by
  have hyears : a.year ≤ b.year := by
    rcases Lib.cons_le_cons_iff.mp (le_of_lt hlt) with h | ⟨h, -⟩
    · exact h.le
    · exact h.le
  have hseconds := (Moment.seconds_lt_iff hyear (hyear.trans hyears)).mpr hlt
  exact ⟨_, _, dt2t32_eq hyear (hseconds.trans hfit), dt2t32_eq (hyear.trans hyears) hfit,
    Int.ofNat_lt.mpr hseconds⟩

/-- The second after has one more. -/
theorem dt2t32_next {m : Moment} (hyear : 1970 ≤ m.year) (hfit : m.next.seconds 1970 < 2 ^ 31) :
    ∃ t, dt2t32 (Datetime.ofMoment m) = some t ∧
      dt2t32 (Datetime.ofMoment m.next) = some (t + 1) := by
  have hnext := Moment.seconds_next hyear
  refine ⟨m.seconds 1970, dt2t32_eq hyear (by omega), ?_⟩
  rw [dt2t32_eq (Moment.first_le_next hyear) hfit, hnext, Nat.cast_add, Nat.cast_one]

/-- `dt2t` counts the seconds since 1970, as long as there are fewer than 2^31, is
greater for a later moment, and greater by one for the second after. -/
theorem dt2t_seconds :
    (∀ m : Moment, 1970 ≤ m.year →
      ∃ days, Date.next^[days] (Date.newYear 1970) = m.date ∧
        (86400 * days + 3600 * m.hr + 60 * m.min + m.sec < 2 ^ 31 →
          dt2t32 (Datetime.ofMoment m) =
            some ((86400 * days + 3600 * m.hr + 60 * m.min + m.sec : Nat) : Int))) ∧
    (∀ a b : Moment, 1970 ≤ a.year → a < b → b.seconds 1970 < 2 ^ 31 →
      ∃ s t, dt2t32 (Datetime.ofMoment a) = some s ∧ dt2t32 (Datetime.ofMoment b) = some t ∧
        s < t) ∧
    ∀ m : Moment, 1970 ≤ m.year → m.next.seconds 1970 < 2 ^ 31 →
      ∃ t, dt2t32 (Datetime.ofMoment m) = some t ∧
        dt2t32 (Datetime.ofMoment m.next) = some (t + 1) :=
  ⟨fun _ hyear => dt2t32_days hyear, fun _ _ hyear hlt hfit => dt2t32_lt hyear hlt hfit,
    fun _ hyear hfit => dt2t32_next hyear hfit⟩

/-- The last second of a leap day and the one after. -/
theorem dt2t_seconds_leapDay :
    ∃ t, dt2t32 ⟨59, 59, 23, 29, 2, 2000⟩ = some t ∧
      dt2t32 ⟨0, 0, 0, 1, 3, 2000⟩ = some (t + 1) := by
  let m : Moment := ⟨2000, 2, 29, 23, 59, 59, by decide, by decide, by decide, by decide,
    by decide⟩
  have hnext : Datetime.ofMoment m.next = ⟨0, 0, 0, 1, 3, 2000⟩ := by decide
  rw [← hnext]
  exact dt2t_seconds.2.2 m (by decide) (by decide)

end StardustOS.Time
