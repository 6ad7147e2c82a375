import Mathlib.Logic.Function.Iterate
import Mathlib.Data.Int.Init
import Mathlib.Tactic.SplitIfs

/-!
# The Gregorian calendar

The calendar is the rule that leads from a day to the next.  `dateOf` counts the days from
the first of January 1970 in both directions by this rule, and `dayNumber` is the closed form
of its inverse: the number of days before a date, with years that begin in March, so that the
day of a leap year comes last.
-/

namespace Calendar

/-- A year with a 29th of February. -/
def Leap (y : Int) : Prop := (y % 4 = 0 ∧ y % 100 ≠ 0) ∨ y % 400 = 0

instance (y : Int) : Decidable (Leap y) := inferInstanceAs (Decidable (_ ∨ _))

/-- The number of days of a month. -/
def monthLength (y m : Int) : Int :=
  if m = 2 then if Leap y then 29 else 28
  else if m = 4 ∨ m = 6 ∨ m = 9 ∨ m = 11 then 30 else 31

theorem monthLength_bounds (y m : Int) : 28 ≤ monthLength y m ∧ monthLength y m ≤ 31 := by
  unfold monthLength
  split_ifs <;> omega

/-- A date of the proleptic Gregorian calendar. -/
@[ext] structure Date where
  year : Int
  month : Int
  day : Int
  month_mem : 1 ≤ month ∧ month ≤ 12
  day_mem : 1 ≤ day ∧ day ≤ monthLength year month

/-- The day after. -/
def Date.next (d : Date) : Date :=
  if h : d.day < monthLength d.year d.month then
    ⟨d.year, d.month, d.day + 1, d.month_mem, by have := d.day_mem; omega⟩
  else if h' : d.month < 12 then
    ⟨d.year, d.month + 1, 1, by have := d.month_mem; omega,
      by have := monthLength_bounds d.year (d.month + 1); omega⟩
  else ⟨d.year + 1, 1, 1, by omega, by have := monthLength_bounds (d.year + 1) 1; omega⟩

/-- The day before. -/
def Date.prev (d : Date) : Date :=
  if h : 1 < d.day then
    ⟨d.year, d.month, d.day - 1, d.month_mem, by have := d.day_mem; omega⟩
  else if h' : 1 < d.month then
    ⟨d.year, d.month - 1, monthLength d.year (d.month - 1), by have := d.month_mem; omega,
      by have := monthLength_bounds d.year (d.month - 1); omega⟩
  else ⟨d.year - 1, 12, 31, by omega, by simp [monthLength]⟩

/-- The first of January 1970. -/
def epoch : Date := ⟨1970, 1, 1, by decide, by decide⟩

/-- The date a number of days after the epoch, or before it. -/
def dateOf : Int → Date
  | .ofNat n => Date.next^[n] epoch
  | .negSucc n => Date.prev^[n + 1] epoch

/-- The days before the year that begins in March of a year. -/
def daysBefore (y : Int) : Int := 365 * y + y / 4 - y / 100 + y / 400

/-- The number of a month, counted from March. -/
def fromMarch (m : Int) : Int := if 2 < m then m - 3 else m + 9

/-- The year that begins in March and has a month of a year. -/
def marchYear (y m : Int) : Int := if 2 < m then y else y - 1

/-- The days before a month in the year that begins in March. -/
def monthStart (m : Int) : Int := (153 * fromMarch m + 2) / 5

/-- The number of days from the epoch to a day of a month. -/
def ordinal (y m d : Int) : Int := daysBefore (marchYear y m) + monthStart m + d - 719469

/-- The number of days from the epoch to a date. -/
def dayNumber (d : Date) : Int := ordinal d.year d.month d.day

/-! ## A year -/

theorem daysBefore_succ (y : Int) :
    daysBefore (y + 1) = daysBefore y + if Leap (y + 1) then 366 else 365 := by
  unfold daysBefore Leap
  split_ifs <;> omega

theorem monthStart_succ {y m : Int} (hm : 1 ≤ m ∧ m ≤ 12) (hfeb : m ≠ 2) :
    (153 * (fromMarch m + 1) + 2) / 5 = monthStart m + monthLength y m := by
  have hcases : m = 1 ∨ m = 3 ∨ m = 4 ∨ m = 5 ∨ m = 6 ∨ m = 7 ∨ m = 8 ∨ m = 9 ∨ m = 10 ∨ m = 11 ∨
      m = 12 := by omega
  rcases hcases with rfl | rfl | rfl | rfl | rfl | rfl | rfl | rfl | rfl | rfl | rfl <;>
    simp [monthStart, fromMarch, monthLength]

theorem february_end (y : Int) : daysBefore (marchYear y 2) + monthStart 2 + monthLength y 2 =
    daysBefore y := by
  have hyear := daysBefore_succ (y - 1)
  rw [Int.sub_add_cancel] at hyear
  unfold marchYear monthStart fromMarch monthLength
  simp only [Int.reduceLT, if_false, if_true]
  split_ifs at hyear ⊢ <;> omega

theorem daysBefore_mono {y y' : Int} (h : y ≤ y') : daysBefore y ≤ daysBefore y' := by
  obtain ⟨n, rfl⟩ := Int.le.dest h
  induction n with
  | zero => simp
  | succ n ih =>
    have hyear := daysBefore_succ (y + n)
    have hcast : y + ((n + 1 : Nat) : Int) = y + n + 1 := by omega
    rw [hcast]
    split_ifs at hyear <;> omega

/-! ## From a day to the next -/

theorem dayNumber_next (d : Date) : dayNumber d.next = dayNumber d + 1 := by
  have hm := d.month_mem
  have hd := d.day_mem
  unfold Date.next
  split_ifs with hday hmonth
  · simp only [dayNumber, ordinal]
    omega
  · have hend : d.day = monthLength d.year d.month := by omega
    obtain hfeb | hfeb := eq_or_ne d.month 2
    · have hyear := february_end d.year
      simp only [dayNumber, ordinal, hfeb] at hend ⊢
      simp only [Int.reduceAdd, marchYear, monthStart, fromMarch, Int.reduceLT, if_true] at hyear ⊢
      omega
    · have hstep := monthStart_succ (y := d.year) hm hfeb
      simp only [dayNumber, ordinal]
      unfold marchYear monthStart fromMarch at *
      split_ifs at * <;> omega
  · have hdec : d.month = 12 := by omega
    have hend : d.day = 31 := by
      have : d.day = monthLength d.year d.month := by omega
      simpa [hdec, monthLength] using this
    simp [dayNumber, ordinal, hdec, hend, marchYear, monthStart, fromMarch]
    omega

theorem next_prev (d : Date) : d.prev.next = d := by
  have hm := d.month_mem
  have hd := d.day_mem
  unfold Date.prev
  split_ifs with hday hmonth
  · have hlt : d.day - 1 < monthLength d.year d.month := by omega
    unfold Date.next
    simp only [dif_pos hlt]
    ext <;> simp
  · have hlt : d.month - 1 < 12 := by omega
    unfold Date.next
    simp only [Int.lt_irrefl, dif_neg, not_false_eq_true, dif_pos hlt]
    ext <;> simp
    omega
  · have hlast : ¬(31 : Int) < monthLength (d.year - 1) 12 := by simp [monthLength]
    unfold Date.next
    simp only [dif_neg hlast, Int.lt_irrefl, dif_neg, not_false_eq_true]
    ext <;> simp <;> omega

theorem dayNumber_prev (d : Date) : dayNumber d.prev = dayNumber d - 1 := by
  have hnext := dayNumber_next d.prev
  rw [next_prev] at hnext
  omega

/-- **The number of a date** counted from the epoch. -/
theorem dayNumber_dateOf (n : Int) : dayNumber (dateOf n) = n := by
  cases n with
  | ofNat n =>
    induction n with
    | zero => rfl
    | succ n ih =>
      simp only [dateOf, Function.iterate_succ_apply', dayNumber_next] at ih ⊢
      rw [ih]
      rfl
  | negSucc n =>
    have hpast : ∀ k : Nat, dayNumber (Date.prev^[k] epoch) = -k := by
      intro k
      induction k with
      | zero => rfl
      | succ k ih =>
        rw [Function.iterate_succ_apply', dayNumber_prev, ih]
        omega
    rw [dateOf, hpast]
    rfl

/-! ## Dates with the same number -/

theorem dayOfYear_bounds (d : Date) :
    0 ≤ monthStart d.month + d.day - 1 ∧
      monthStart d.month + d.day - 1 < if Leap (marchYear d.year d.month + 1) then 366 else 365 := by
  have hm := d.month_mem
  have hd := d.day_mem
  obtain hfeb | hfeb := eq_or_ne d.month 2
  · have hyear : marchYear d.year d.month + 1 = d.year := by
      rw [hfeb, marchYear, if_neg (by omega)]
      omega
    rw [hyear]
    simp only [hfeb, monthLength, if_true] at hd
    simp only [hfeb, monthStart, fromMarch]
    split_ifs at hd ⊢ <;> omega
  · have hstep := monthStart_succ (y := d.year) hm hfeb
    have hfirst : 0 ≤ monthStart d.month := by
      unfold monthStart fromMarch
      split_ifs <;> omega
    have hlast : (153 * (fromMarch d.month + 1) + 2) / 5 ≤ 337 := by
      unfold fromMarch
      split_ifs <;> omega
    split_ifs <;> omega

theorem monthStart_lt {d d' : Date} (h : fromMarch d.month < fromMarch d'.month) :
    monthStart d.month + d.day < monthStart d'.month + d'.day := by
  have hm := d.month_mem
  have hd := d.day_mem
  have hd' := d'.day_mem
  have hm' := d'.month_mem
  have hfeb : d.month ≠ 2 := by
    intro hfeb
    unfold fromMarch at h
    split_ifs at h <;> omega
  have hstep := monthStart_succ (y := d.year) hm hfeb
  have hlater : (153 * (fromMarch d.month + 1) + 2) / 5 ≤ monthStart d'.month := by
    unfold monthStart
    omega
  omega

theorem dayNumber_injective {d d' : Date} (h : dayNumber d = dayNumber d') : d = d' := by
  have hb := dayOfYear_bounds d
  have hb' := dayOfYear_bounds d'
  have hs := daysBefore_succ (marchYear d.year d.month)
  have hs' := daysBefore_succ (marchYear d'.year d'.month)
  unfold dayNumber ordinal at h
  -- the years that begin in March agree
  have hyear : marchYear d.year d.month = marchYear d'.year d'.month := by
    by_contra hne
    obtain hlt | hgt := Int.lt_or_gt_of_ne hne
    · have := daysBefore_mono (Int.add_one_le_of_lt hlt)
      omega
    · have := daysBefore_mono (Int.add_one_le_of_lt hgt)
      omega
  rw [hyear] at h
  have hmonth : fromMarch d.month = fromMarch d'.month := by
    by_contra hne
    obtain hlt | hgt := Int.lt_or_gt_of_ne hne
    · have := monthStart_lt hlt
      omega
    · have := monthStart_lt hgt
      omega
  have hm := d.month_mem
  have hm' := d'.month_mem
  unfold monthStart at h
  have hmonthEq : d.month = d'.month := by
    unfold fromMarch at hmonth
    split_ifs at hmonth <;> omega
  ext
  · unfold marchYear at hyear
    split_ifs at hyear <;> omega
  · exact hmonthEq
  · omega

theorem dateOf_dayNumber (d : Date) : dateOf (dayNumber d) = d := by
  apply dayNumber_injective
  rw [dayNumber_dateOf]

/-- The first of January. -/
def newYear (y : Int) : Date :=
  ⟨y, 1, 1, by decide, by have := monthLength_bounds y 1; omega⟩

theorem dayNumber_newYear (d : Date) :
    dayNumber (newYear d.year) ≤ dayNumber d ∧ dayNumber d ≤ dayNumber (newYear d.year) + 365 := by
  have hm := d.month_mem
  have hd := d.day_mem
  have hlen := monthLength_bounds d.year d.month
  have hyear := daysBefore_succ (d.year - 1)
  rw [Int.sub_add_cancel] at hyear
  have hfirst : dayNumber (newYear d.year) = daysBefore (d.year - 1) + 307 - 719469 := by
    change daysBefore (d.year - 1) + 306 + 1 - 719469 = _
    omega
  rw [hfirst]
  unfold dayNumber ordinal marchYear monthStart fromMarch
  by_cases hlate : 2 < d.month
  · rw [if_pos hlate, if_pos hlate]
    split_ifs at hyear <;> omega
  · grind

theorem year_bounds {n : Int} (h0 : -420000000000 ≤ n) (h1 : n ≤ 420000000000) :
    -1160000000 ≤ (dateOf n).year ∧ (dateOf n).year ≤ 1160000000 := by
  have hn := dayNumber_dateOf n
  have hb := dayOfYear_bounds (dateOf n)
  have hmarch : marchYear (dateOf n).year (dateOf n).month ≤ (dateOf n).year ∧
      (dateOf n).year ≤ marchYear (dateOf n).year (dateOf n).month + 1 := by
    unfold marchYear
    split_ifs <;> omega
  unfold dayNumber ordinal daysBefore at hn
  omega

/-! ## The parts of an era -/

/-- A day of an era of 400 years: its century `c`, the four years `q` in that, the year `r` of
these and the day `s` in the year.  A day 365 belongs to a leap year. -/
structure EraDay (doe c q r s : Int) : Prop where
  split : doe = 36524 * c + 1461 * q + 365 * r + s
  century : 0 ≤ c ∧ c ≤ 3
  four : 0 ≤ q ∧ q ≤ 24
  one : 0 ≤ r ∧ r ≤ 3
  day : 0 ≤ s ∧ s ≤ 365
  last : s = 365 → r = 3
  leap : s = 365 → q = 24 → c = 3

theorem eraDay_exists {doe : Int} (h0 : 0 ≤ doe) (h1 : doe < 146097) :
    ∃ c q r s, EraDay doe c q r s := by
  obtain ⟨c, e, ⟨hsplit, hc⟩, he⟩ : ∃ c e, (doe = 36524 * c + e ∧ (0 ≤ c ∧ c ≤ 3)) ∧
      0 ≤ e ∧ e ≤ 36524 ∧ (e = 36524 → c = 3) := by
    by_cases h : doe < 146096
    · exact ⟨doe / 36524, doe % 36524, by omega, by omega⟩
    · exact ⟨3, 36524, by omega, by omega⟩
  obtain ⟨q, f, ⟨hsplit', hq⟩, hf⟩ : ∃ q f, (e = 1461 * q + f ∧ (0 ≤ q ∧ q ≤ 24)) ∧
      0 ≤ f ∧ f ≤ 1460 := ⟨e / 1461, e % 1461, by omega, by omega⟩
  obtain ⟨r, s, ⟨hsplit'', hr⟩, hs⟩ : ∃ r s, (f = 365 * r + s ∧ (0 ≤ r ∧ r ≤ 3)) ∧
      0 ≤ s ∧ s ≤ 365 ∧ (s = 365 → r = 3) := by
    by_cases h : f < 1460
    · exact ⟨f / 365, f % 365, by omega, by omega⟩
    · exact ⟨3, 365, by omega, by omega⟩
  exact ⟨c, q, r, s, by omega, hc, hq, hr, ⟨hs.1, hs.2.1⟩, hs.2.2, by omega⟩

variable {doe c q r s : Int}

theorem EraDay.hundred (h : EraDay doe c q r s) : doe / 36524 - doe / 146096 = c := by
  obtain ⟨hsplit, hc, hq, hr, hs, hlast, hleap⟩ := h
  by_cases hend : doe < 146096
  · grind
  · omega

/-- **The year of an era** is found from the day in one division. -/
theorem EraDay.yearOfEra (h : EraDay doe c q r s) :
    (doe - doe / 1460 + doe / 36524 - doe / 146096) / 365 = 100 * c + 4 * q + r := by
  have hhundred := h.hundred
  obtain ⟨hsplit, hc, hq, hr, hs, hlast, -⟩ := h
  -- what the years have behind their 1460 days: another 1460 at most
  obtain ⟨x, hx⟩ : ∃ x, 24 * c + q + 365 * r + s = x := ⟨_, rfl⟩
  omega

theorem EraDay.dayOfYear (h : EraDay doe c q r s) :
    doe - (365 * (100 * c + 4 * q + r) + (100 * c + 4 * q + r) / 4 - (100 * c + 4 * q + r) / 100) =
      s := by
  obtain ⟨hsplit, hc, hq, hr, -⟩ := h
  omega

theorem EraDay.lt (h : EraDay doe c q r s) (era : Int) :
    s < if Leap (400 * era + (100 * c + 4 * q + r) + 1) then 366 else 365 := by
  obtain ⟨-, hc, hq, hr, hs, hlast, hleap⟩ := h
  by_cases hday : s = 365
  · obtain rfl := hlast hday
    have hyear : Leap (400 * era + (100 * c + 4 * q + 3) + 1) := by
      obtain hlt | rfl := Int.lt_or_eq_of_le hq.2
      · constructor <;> omega
      · right
        omega
    rw [if_pos hyear]
    omega
  · split_ifs <;> omega

/-! ## From the number to the date -/

theorem daysBefore_era (era : Int) {yoe : Int} (h0 : 0 ≤ yoe) (h1 : yoe ≤ 399) :
    daysBefore (400 * era + yoe) = 146097 * era + (365 * yoe + yoe / 4 - yoe / 100) := by
  unfold daysBefore
  omega

/-- The month with the number `mp` from March on. -/
def monthFromMarch (mp : Int) : Int := if mp < 10 then mp + 3 else mp - 9

/-- **The date of a day**, from the parts of its era. -/
theorem date_of_parts {n era mp : Int} (h : EraDay doe c q r s)
    (hn : n + 719468 = era * 146097 + doe) (hmp : (5 * s + 2) / 153 = mp) :
    let y := 400 * era + (100 * c + 4 * q + r) + if monthFromMarch mp ≤ 2 then 1 else 0
    (dateOf n).year = y ∧ (dateOf n).month = monthFromMarch mp ∧
      (dateOf n).day = s - (153 * mp + 2) / 5 + 1 := by
  intro y
  have hs := h.day
  have hlt := h.lt era
  have hback : fromMarch (monthFromMarch mp) = mp := by
    unfold fromMarch monthFromMarch
    split_ifs <;> omega
  have hmonth : 1 ≤ monthFromMarch mp ∧ monthFromMarch mp ≤ 12 := by
    unfold monthFromMarch
    split_ifs <;> omega
  have hmarch : marchYear y (monthFromMarch mp) = 400 * era + (100 * c + 4 * q + r) := by
    unfold marchYear y
    split_ifs <;> omega
  have hday : 1 ≤ s - (153 * mp + 2) / 5 + 1 ∧
      s - (153 * mp + 2) / 5 + 1 ≤ monthLength y (monthFromMarch mp) := by
    obtain hfeb | hfeb := eq_or_ne (monthFromMarch mp) 2
    · have hy : 400 * era + (100 * c + 4 * q + r) + 1 = y := by
        unfold y
        rw [if_pos (by omega)]
      rw [hy] at hlt
      have hmp11 : mp = 11 := by
        rw [hfeb] at hback
        simpa [fromMarch] using hback.symm
      rw [hfeb, monthLength, if_pos rfl]
      split_ifs at hlt ⊢ <;> omega
    · have hstep := monthStart_succ (y := y) hmonth hfeb
      unfold monthStart at hstep
      rw [hback] at hstep
      omega
  have hdate : dayNumber ⟨y, monthFromMarch mp, s - (153 * mp + 2) / 5 + 1, hmonth, hday⟩ = n := by
    have hyear := h.dayOfYear
    obtain ⟨-, hc, hq, hr, -⟩ := h
    simp only [dayNumber, ordinal, monthStart, hback, hmarch]
    rw [daysBefore_era era (by omega) (by omega)]
    omega
  rw [← hdate, dateOf_dayNumber]
  exact ⟨rfl, rfl, rfl⟩

end Calendar
