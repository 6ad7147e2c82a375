import StrawOS.Lib.Calendar
import Mathlib

/-!
# Calendar time

`gmtime` finds the date of a number of seconds by era arithmetic, `days_from_civil` goes the
other way, and `mktime` carries the months into the years and hands the rest of the fields to
the seconds.  The divisions of C round to zero.

`mktime` adds to `tm_year` and subtracts from `tm_mday` in `int` before it goes to 64 bits; where
that overflows, C gives no result.
-/

namespace Libc

open Calendar

/-- `struct tm`. -/
structure Tm where
  sec : Int32
  min : Int32
  hour : Int32
  mday : Int32
  mon : Int32
  year : Int32
  wday : Int32
  yday : Int32
  isdst : Int32
  deriving DecidableEq

def daysFromCivil (y m d : Int) : Int :=
  let y := if m ≤ 2 then y - 1 else y
  let era := (if 0 ≤ y then y else y - 399).tdiv 400
  let yoe := y - era * 400
  let doy := (153 * (m + if 2 < m then -3 else 9) + 2).tdiv 5 + d - 1
  let doe := yoe * 365 + yoe.tdiv 4 - yoe.tdiv 100 + doy
  era * 146097 + doe - 719468

def gmtime (t : Int) : Tm :=
  let days := if t.tmod 86400 < 0 then t.tdiv 86400 - 1 else t.tdiv 86400
  let rem := if t.tmod 86400 < 0 then t.tmod 86400 + 86400 else t.tmod 86400
  let wday := (days + 4).tmod 7
  let z := days + 719468
  let era := (if 0 ≤ z then z else z - 146096).tdiv 146097
  let doe := z - era * 146097
  let yoe := (doe - doe.tdiv 1460 + doe.tdiv 36524 - doe.tdiv 146096).tdiv 365
  let doy := doe - (365 * yoe + yoe.tdiv 4 - yoe.tdiv 100)
  let mp := (5 * doy + 2).tdiv 153
  let d := doy - (153 * mp + 2).tdiv 5 + 1
  let m := if mp < 10 then mp + 3 else mp - 9
  let y := yoe + era * 400 + if m ≤ 2 then 1 else 0
  { hour := .ofInt (rem.tdiv 3600)
    min := .ofInt ((rem.tdiv 60).tmod 60)
    sec := .ofInt (rem.tmod 60)
    wday := .ofInt (if wday < 0 then wday + 7 else wday)
    year := .ofInt (y - 1900)
    mon := .ofInt (m - 1)
    mday := .ofInt d
    yday := .ofInt (days - daysFromCivil y 1 1)
    isdst := 0 }

/-- A result in `int`; one that does not fit is none. -/
def checkedInt (x : Int) : Option Int :=
  if -2147483648 ≤ x ∧ x ≤ 2147483647 then some x else none

/-- `mktime`, with the structure it leaves. -/
def mktime (tm : Tm) : Option (Int × Tm) :=
  match checkedInt (tm.year.toInt + 1900), checkedInt (tm.mday.toInt - 1) with
  | some year, some mday =>
      let year := year + tm.mon.toInt.tdiv 12
      let mon := tm.mon.toInt.tmod 12
      let first := if mon < 0 then daysFromCivil (year - 1) (mon + 12 + 1) 1
        else daysFromCivil year (mon + 1) 1
      let t := first * 86400 + (mday * 86400 + tm.hour.toInt * 3600 + tm.min.toInt * 60 + tm.sec.toInt)
      some (t, gmtime t)
  | _, _ => none

def timegm (tm : Tm) : Option (Int × Tm) := mktime tm

/-! ## Division that rounds to zero -/

theorem tdiv_of_neg {a b : Int} (h : a < 0) : a.tdiv b = -(-a / b) := by
  have hpos : (-a).tdiv b = -a / b := Int.tdiv_eq_ediv_of_nonneg (by omega)
  rw [← hpos, Int.neg_tdiv, Int.neg_neg]

theorem tdiv_of_nonneg {a b : Int} (h : 0 ≤ a) : a.tdiv b = a / b := Int.tdiv_eq_ediv_of_nonneg h

theorem floor_400 (y : Int) : (if 0 ≤ y then y else y - 399).tdiv 400 = y / 400 := by
  by_cases h : 0 ≤ y
  · rw [if_pos h, tdiv_of_nonneg h]
  · rw [if_neg h, tdiv_of_neg (by omega)]
    omega

theorem floor_146097 (z : Int) : (if 0 ≤ z then z else z - 146096).tdiv 146097 = z / 146097 := by
  by_cases h : 0 ≤ z
  · rw [if_pos h, tdiv_of_nonneg h]
  · rw [if_neg h, tdiv_of_neg (by omega)]
    omega

theorem floor_eq (a : Int) {n : Int} (hn : 0 < n) :
    (if a.tmod n < 0 then a.tdiv n - 1 else a.tdiv n) = a / n ∧
      (if a.tmod n < 0 then a.tmod n + n else a.tmod n) = a % n := by
  have hsplit := Int.tmod_add_mul_tdiv a n
  have hlow := Int.lt_tmod_of_pos a hn
  have hhigh := Int.tmod_lt_of_pos a hn
  by_cases hneg : a.tmod n < 0
  · rw [if_pos hneg, if_pos hneg]
    obtain ⟨hdiv, hmod⟩ := (Int.ediv_emod_unique (a := a) (q := a.tdiv n - 1)
      (r := a.tmod n + n) hn).mpr ⟨by rw [Int.mul_sub]; omega, by omega, by omega⟩
    exact ⟨hdiv.symm, hmod.symm⟩
  · rw [if_neg hneg, if_neg hneg]
    obtain ⟨hdiv, hmod⟩ := (Int.ediv_emod_unique (a := a) (q := a.tdiv n) (r := a.tmod n) hn).mpr
      ⟨hsplit, by omega, hhigh⟩
    exact ⟨hdiv.symm, hmod.symm⟩

/-! ## The days of a date -/

/-- **`days_from_civil`** counts the days from the epoch to a day of a month. -/
theorem daysFromCivil_eq {y m : Int} (hm : 1 ≤ m ∧ m ≤ 12) (d : Int) :
    daysFromCivil y m d = ordinal y m d := by
  have hmonth : (153 * (m + if 2 < m then -3 else 9) + 2).tdiv 5 = monthStart m := by
    unfold monthStart fromMarch
    split_ifs <;> exact tdiv_of_nonneg (by omega)
  have hyear : (if m ≤ 2 then y - 1 else y) = marchYear y m := by
    unfold marchYear
    split_ifs <;> omega
  simp only [daysFromCivil, hmonth, hyear, floor_400, ordinal]
  generalize marchYear y m = y'
  have hera := @daysBefore_era (y' / 400) (y' - y' / 400 * 400) (by omega) (by omega)
  have hy : 400 * (y' / 400) + (y' - y' / 400 * 400) = y' := by omega
  rw [hy] at hera
  rw [hera, tdiv_of_nonneg (by omega), tdiv_of_nonneg (by omega)]
  omega

theorem yearOfEra_tdiv {doe c q r s : Int} (h : EraDay doe c q r s) (h0 : 0 ≤ doe) :
    (doe - doe.tdiv 1460 + doe.tdiv 36524 - doe.tdiv 146096).tdiv 365 = 100 * c + 4 * q + r := by
  have hsum : 0 ≤ doe - doe / 1460 + doe / 36524 - doe / 146096 := by omega
  rw [tdiv_of_nonneg h0, tdiv_of_nonneg h0, tdiv_of_nonneg h0, tdiv_of_nonneg hsum, h.yearOfEra]

theorem dayOfYear_tdiv {doe c q r s : Int} (h : EraDay doe c q r s) :
    doe - (365 * (100 * c + 4 * q + r) + (100 * c + 4 * q + r).tdiv 4 -
      (100 * c + 4 * q + r).tdiv 100) = s := by
  have hday := h.dayOfYear
  obtain ⟨-, hc, hq, hr, -⟩ := h
  rw [tdiv_of_nonneg (by omega), tdiv_of_nonneg (by omega), hday]

/-- **`gmtime`**, with divisions that round down. -/
theorem gmtime_eq (t : Int) :
    gmtime t =
      { hour := .ofInt (t % 86400 / 3600)
        min := .ofInt (t % 86400 / 60 % 60)
        sec := .ofInt (t % 86400 % 60)
        wday := .ofInt ((t / 86400 + 4) % 7)
        year := .ofInt ((dateOf (t / 86400)).year - 1900)
        mon := .ofInt ((dateOf (t / 86400)).month - 1)
        mday := .ofInt (dateOf (t / 86400)).day
        yday := .ofInt (t / 86400 - dayNumber (newYear (dateOf (t / 86400)).year))
        isdst := 0 } := by
  obtain ⟨hdays, hrem⟩ := floor_eq t (by decide : (0 : Int) < 86400)
  have hweek := (floor_eq (t / 86400 + 4) (by decide : (0 : Int) < 7)).2
  have hrem0 : 0 ≤ t % 86400 := Int.emod_nonneg t (by decide)
  obtain ⟨doe, hdoe⟩ : ∃ doe, t / 86400 + 719468 - (t / 86400 + 719468) / 146097 * 146097 = doe :=
    ⟨_, rfl⟩
  have hdoe0 : 0 ≤ doe := by omega
  obtain ⟨c, q, r, s, hparts⟩ := eraDay_exists hdoe0 (by omega)
  have hs := hparts.day
  obtain ⟨hyear, hmonth, hday⟩ := @date_of_parts doe c q r s (t / 86400)
    ((t / 86400 + 719468) / 146097) _ hparts (by omega) rfl
  have hmonth' : (if (5 * s + 2) / 153 < 10 then (5 * s + 2) / 153 + 3 else (5 * s + 2) / 153 - 9) =
      (dateOf (t / 86400)).month := hmonth.symm
  have hyear' : 100 * c + 4 * q + r + (t / 86400 + 719468) / 146097 * 400 +
      (if (dateOf (t / 86400)).month ≤ 2 then 1 else 0) = (dateOf (t / 86400)).year := by
    rw [hyear, hmonth]
    omega
  have hcount : daysFromCivil (dateOf (t / 86400)).year 1 1 =
      dayNumber (newYear (dateOf (t / 86400)).year) := daysFromCivil_eq (by decide) 1
  have hmp : (5 * s + 2).tdiv 153 = (5 * s + 2) / 153 := tdiv_of_nonneg (by omega)
  have hfive : (153 * ((5 * s + 2) / 153) + 2).tdiv 5 = (153 * ((5 * s + 2) / 153) + 2) / 5 :=
    tdiv_of_nonneg (by omega)
  simp only [gmtime, hdays, hrem, hweek, floor_146097, hdoe, yearOfEra_tdiv hparts hdoe0,
    dayOfYear_tdiv hparts, hmp, hfive, hmonth', hyear', hcount, ← hday]
  rw [tdiv_of_nonneg hrem0, tdiv_of_nonneg hrem0, Int.tmod_eq_emod_of_nonneg hrem0,
    Int.tmod_eq_emod_of_nonneg (by omega)]

/-- **`mktime`**, where nothing overflows. -/
theorem mktime_eq {tm : Tm} (hyear : tm.year.toInt ≤ 2147481747)
    (hmday : -2147483648 < tm.mday.toInt) :
    ∃ t, mktime tm = some (t, gmtime t) ∧
      t = (ordinal (tm.year.toInt + 1900 + tm.mon.toInt / 12) (tm.mon.toInt % 12 + 1) tm.mday.toInt) *
        86400 + tm.hour.toInt * 3600 + tm.min.toInt * 60 + tm.sec.toInt := by
  have hyear0 := tm.year.le_toInt
  have hmday1 := tm.mday.toInt_lt
  obtain ⟨hdiv, hmod⟩ := floor_eq tm.mon.toInt (by decide : (0 : Int) < 12)
  have hcheck : checkedInt (tm.year.toInt + 1900) = some (tm.year.toInt + 1900) :=
    if_pos (by omega)
  have hcheck' : checkedInt (tm.mday.toInt - 1) = some (tm.mday.toInt - 1) := if_pos (by omega)
  have hfirst : (if tm.mon.toInt.tmod 12 < 0 then
        daysFromCivil (tm.year.toInt + 1900 + tm.mon.toInt.tdiv 12 - 1)
          (tm.mon.toInt.tmod 12 + 12 + 1) 1
      else daysFromCivil (tm.year.toInt + 1900 + tm.mon.toInt.tdiv 12) (tm.mon.toInt.tmod 12 + 1) 1) =
      ordinal (tm.year.toInt + 1900 + tm.mon.toInt / 12) (tm.mon.toInt % 12 + 1) 1 := by
    rw [← daysFromCivil_eq (by omega)]
    split_ifs at hdiv hmod ⊢ with hneg
    · rw [← hdiv, ← hmod, Int.add_sub_assoc]
    · rw [← hdiv, ← hmod]
  simp only [mktime, hcheck, hcheck', hfirst]
  refine ⟨_, rfl, ?_⟩
  unfold ordinal
  omega

/-! ## What the fields say -/

/-- The fields of an instant in the Gregorian calendar. -/
structure Utc (t : Int) (tm : Tm) : Prop where
  year : tm.year.toInt + 1900 = (dateOf (t / 86400)).year
  mon : tm.mon.toInt + 1 = (dateOf (t / 86400)).month
  mday : tm.mday.toInt = (dateOf (t / 86400)).day
  hour : 0 ≤ tm.hour.toInt ∧ tm.hour.toInt < 24
  min : 0 ≤ tm.min.toInt ∧ tm.min.toInt < 60
  sec : 0 ≤ tm.sec.toInt ∧ tm.sec.toInt < 60
  time : tm.hour.toInt * 3600 + tm.min.toInt * 60 + tm.sec.toInt = t % 86400
  wday : tm.wday.toInt = (t / 86400 + 4) % 7
  yday : 0 ≤ tm.yday.toInt ∧ tm.yday.toInt ≤ 365
  newYear : dateOf (t / 86400 - tm.yday.toInt) = newYear (dateOf (t / 86400)).year
  isdst : tm.isdst = 0

theorem toInt_small {x : Int} (h0 : -2147483648 ≤ x) (h1 : x < 2147483648) :
    (Int32.ofInt x).toInt = x := Int32.toInt_ofInt_of_le h0 h1

/-- **`gmtime`** yields the fields of the instant. -/
theorem gmtime_utc {t : Int} (h0 : -2 ^ 55 < t) (h1 : t < 2 ^ 55) : Utc t (gmtime t) := by
  have hbounds := year_bounds (n := t / 86400) (by omega) (by omega)
  have hm := (dateOf (t / 86400)).month_mem
  have hd := (dateOf (t / 86400)).day_mem
  have hlen := monthLength_bounds (dateOf (t / 86400)).year (dateOf (t / 86400)).month
  have hday := dayNumber_newYear (dateOf (t / 86400))
  rw [dayNumber_dateOf] at hday
  rw [gmtime_eq]
  refine ⟨?_, ?_, ?_, ?_, ?_, ?_, ?_, ?_, ?_, ?_, rfl⟩
  all_goals repeat rw [toInt_small (by omega) (by omega)]
  all_goals try omega
  rw [Int.sub_sub_self, dateOf_dayNumber]

/-- The instant that the fields name: the day of the month counts from the first of the month
that the months lead to from the beginning of the year, and the rest are seconds. -/
def Carried (tm : Tm) (t : Int) : Prop :=
  ∃ n, (dateOf n).year = tm.year.toInt + 1900 + tm.mon.toInt / 12 ∧
    (dateOf n).month = tm.mon.toInt % 12 + 1 ∧ (dateOf n).day = 1 ∧
    t = (n + (tm.mday.toInt - 1)) * 86400 + tm.hour.toInt * 3600 + tm.min.toInt * 60 + tm.sec.toInt

theorem carried_iff {tm : Tm} {t : Int} : Carried tm t ↔
    t = (ordinal (tm.year.toInt + 1900 + tm.mon.toInt / 12) (tm.mon.toInt % 12 + 1)
      tm.mday.toInt) * 86400 + tm.hour.toInt * 3600 + tm.min.toInt * 60 + tm.sec.toInt := by
  have hlinear : ∀ y m d : Int, ordinal y m d = ordinal y m 1 + (d - 1) := by
    unfold ordinal
    omega
  rw [hlinear]
  constructor
  · rintro ⟨n, hyear, hmonth, hday, ht⟩
    have hn := dayNumber_dateOf n
    rw [dayNumber, hyear, hmonth, hday] at hn
    rw [hn, ht]
  · intro ht
    have hlen := monthLength_bounds (tm.year.toInt + 1900 + tm.mon.toInt / 12)
      (tm.mon.toInt % 12 + 1)
    let first : Date := ⟨tm.year.toInt + 1900 + tm.mon.toInt / 12, tm.mon.toInt % 12 + 1, 1,
      by omega, by omega⟩
    refine ⟨dayNumber first, ?_, ?_, ?_, ht⟩
    all_goals rw [dateOf_dayNumber]

/-- **`timegm`** takes the fields of an instant back to it. -/
theorem timegm_gmtime {t : Int} (h0 : -2 ^ 55 < t) (h1 : t < 2 ^ 55) :
    timegm (gmtime t) = some (t, gmtime t) := by
  have hutc := gmtime_utc h0 h1
  have hbounds := year_bounds (n := t / 86400) (by omega) (by omega)
  have hm := (dateOf (t / 86400)).month_mem
  have hd := (dateOf (t / 86400)).day_mem
  have hyear := hutc.year
  have hmon := hutc.mon
  have hmday := hutc.mday
  obtain ⟨t', hmk, ht'⟩ := @mktime_eq (gmtime t) (by omega) (by omega)
  have hcarry : (gmtime t).mon.toInt / 12 = 0 := by omega
  have hmonth : (gmtime t).mon.toInt % 12 + 1 = (dateOf (t / 86400)).month := by omega
  have hn := dayNumber_dateOf (t / 86400)
  have htime := hutc.time
  rw [hcarry, Int.add_zero, hmonth, hyear, hmday] at ht'
  unfold dayNumber at hn
  obtain rfl : t' = t := by omega
  exact hmk

/-- **The calendar**: within 2^55 seconds of the epoch `gmtime` yields the fields of the instant
and `timegm` takes them back, and `mktime` carries the fields of a structure exactly when
1900 can be added to its year and 1 subtracted from its day. -/
theorem calendar_conversion (t : Int) (tm : Tm) :
    (-2 ^ 55 < t → t < 2 ^ 55 → Utc t (gmtime t) ∧ timegm (gmtime t) = some (t, gmtime t)) ∧
    ((∃ t, mktime tm = some (t, gmtime t) ∧ Carried tm t) ↔
      tm.year.toInt ≤ 2147481747 ∧ -2147483648 < tm.mday.toInt) := by
  refine ⟨fun h0 h1 => ⟨gmtime_utc h0 h1, timegm_gmtime h0 h1⟩, ⟨?_, ?_⟩⟩
  · rintro ⟨t, hmk, -⟩
    by_contra hover
    have hnone : mktime tm = none := by
      obtain hyear | hmday : 2147481747 < tm.year.toInt ∨ tm.mday.toInt ≤ -2147483648 := by omega
      · have hcheck : checkedInt (tm.year.toInt + 1900) = none := if_neg (by omega)
        simp only [mktime, hcheck]
      · have hcheck : checkedInt (tm.mday.toInt - 1) = none := if_neg (by omega)
        simp only [mktime, hcheck]
        cases checkedInt (tm.year.toInt + 1900) <;> rfl
    rw [hnone] at hmk
    cases hmk
  · rintro ⟨hyear, hmday⟩
    obtain ⟨t, hmk, ht⟩ := mktime_eq hyear hmday
    exact ⟨t, hmk, carried_iff.mpr ht⟩

/-- The last year of an `int`. -/
theorem mktime_overflow : ¬∀ tm : Tm, ∃ t, mktime tm = some (t, gmtime t) ∧ Carried tm t := by
  intro h
  obtain ⟨t, hmk, -⟩ := h ⟨0, 0, 0, 1, 0, 2147483647, 0, 0, 0⟩
  cases hmk

end Libc
