import VynkorPlugins.Calendar.Dates
import Mathlib.Tactic.Linarith

/-!
# Civil dates

The civil date of a day is a date of the calendar, and it gives the day back. The months follow on
each other without a gap.
-/

namespace Calendar

/-! ## The divisions -/

theorem tdiv_era (n : Int) {b : Int} (hb : 0 < b) :
    (if 0 ≤ n then n else n - (b - 1)).tdiv b = n / b := by
  split_ifs with h
  · exact Int.tdiv_eq_ediv_of_nonneg h
  · have hneg : n - (b - 1) = -(-n - 1 + b) := by omega
    have hpos : 0 ≤ -n - 1 + b := by omega
    rw [hneg, Int.neg_tdiv, Int.tdiv_eq_ediv_of_nonneg hpos]
    symm
    rw [Int.ediv_eq_iff_of_pos hb]
    have hdiv := Int.emod_add_mul_ediv (-n - 1 + b) b
    have hnonneg := Int.emod_nonneg (-n - 1 + b) (show b ≠ 0 by omega)
    have hlt := Int.emod_lt_of_pos (-n - 1 + b) hb
    constructor <;> linarith

theorem days_from_civil_eq {y m : Int} (d : Int) (hm : 1 ≤ m) :
    days_from_civil y m d =
      let y' := if m ≤ 2 then y - 1 else y
      y' / 400 * 146097 + (y' % 400 * 365 + y' % 400 / 4 - y' % 400 / 100 +
        (153 * (if 2 < m then m - 3 else m + 9) + 2) / 5 + d - 1) - 719468 := by
  unfold days_from_civil
  dsimp only
  generalize (if m ≤ 2 then y - 1 else y) = y'
  have hera : (if 0 ≤ y' then y' else y' - 399).tdiv 400 = y' / 400 :=
    tdiv_era y' (show (0 : Int) < 400 by omega)
  have hyoe : y' - y' / 400 * 400 = y' % 400 := by omega
  rw [hera, hyoe]
  have hpos : 0 ≤ y' % 400 := by omega
  have hmp : 0 ≤ 153 * (if 2 < m then m - 3 else m + 9) + 2 := by
    split_ifs <;> omega
  rw [Int.tdiv_eq_ediv_of_nonneg hpos, Int.tdiv_eq_ediv_of_nonneg hpos,
    Int.tdiv_eq_ediv_of_nonneg hmp]
  omega

theorem is_leap_iff (y : Int) : is_leap y = true ↔ y % 4 = 0 ∧ y % 100 ≠ 0 ∨ y % 400 = 0 := by
  have hmod : ∀ n : Int, y.tmod n = 0 ↔ y % n = 0 := by
    intro n
    rw [← Int.dvd_iff_tmod_eq_zero, ← Int.dvd_iff_emod_eq_zero]
  unfold is_leap
  simp [hmod]

theorem days_from_civil_day (y m d : Int) :
    days_from_civil y m d = days_from_civil y m 1 + (d - 1) := by
  unfold days_from_civil
  dsimp only
  omega

/-! ## Months -/

theorem days_in_month_bounds (y m : Int) : 28 ≤ days_in_month y m ∧ days_in_month y m ≤ 31 := by
  unfold days_in_month
  split_ifs <;> omega

/-- The first day of a month, counted from the year 0 on. -/
def monthStart (t : Int) : Int := days_from_civil (t / 12) (t % 12 + 1) 1

def monthLength (t : Int) : Int := days_in_month (t / 12) (t % 12 + 1)

/-- The month after one that is not the last of its year. -/
theorem days_from_civil_month {y m : Int} (hm : 1 ≤ m) (hlast : m < 12) :
    days_from_civil y (m + 1) 1 = days_from_civil y m 1 + days_in_month y m := by
  rw [days_from_civil_eq _ hm, days_from_civil_eq _ (show 1 ≤ m + 1 by omega)]
  by_cases hfeb : m = 2
  · subst hfeb
    have hleap := is_leap_iff y
    have hdays : days_in_month y 2 = if is_leap y then 29 else 28 := rfl
    rw [hdays]
    cases hy : is_leap y with
    | false =>
      rw [hy] at hleap
      norm_num at hleap ⊢
      omega
    | true =>
      rw [hy] at hleap
      norm_num at hleap ⊢
      omega
  · obtain rfl | rfl | rfl | rfl | rfl | rfl | rfl | rfl | rfl | rfl : m = 1 ∨ m = 3 ∨ m = 4 ∨ m = 5 ∨
      m = 6 ∨ m = 7 ∨ m = 8 ∨ m = 9 ∨ m = 10 ∨ m = 11 := by omega
    all_goals norm_num [days_in_month]
    all_goals omega

theorem days_from_civil_year (y : Int) :
    days_from_civil (y + 1) 1 1 = days_from_civil y 12 1 + days_in_month y 12 := by
  rw [days_from_civil_eq _ (show (1 : Int) ≤ 1 by omega),
    days_from_civil_eq _ (show (1 : Int) ≤ 12 by omega)]
  norm_num [days_in_month]
  omega

/-- There is no day between a month and the next one. -/
theorem monthStart_succ (t : Int) : monthStart (t + 1) = monthStart t + monthLength t := by
  unfold monthStart monthLength
  by_cases hlast : t % 12 = 11
  · have hyear : (t + 1) / 12 = t / 12 + 1 := by omega
    have hmonth : (t + 1) % 12 = 0 := by omega
    rw [hyear, hmonth, hlast]
    exact days_from_civil_year (t / 12)
  · have hyear : (t + 1) / 12 = t / 12 := by omega
    have hmonth : (t + 1) % 12 = t % 12 + 1 := by omega
    rw [hyear, hmonth]
    exact days_from_civil_month (by omega) (by omega)

section

variable {y m : Int}

/-- The day of a date, from the first day of its month on. -/
theorem days_from_civil_monthStart (d : Int) (hm : 1 ≤ m ∧ m ≤ 12) :
    days_from_civil y m d = monthStart (y * 12 + (m - 1)) + (d - 1) := by
  have hyear : (y * 12 + (m - 1)) / 12 = y := by omega
  have hmonth : (y * 12 + (m - 1)) % 12 + 1 = m := by omega
  rw [days_from_civil_day, monthStart, hyear, hmonth]

theorem days_in_month_monthLength (hm : 1 ≤ m ∧ m ≤ 12) :
    days_in_month y m = monthLength (y * 12 + (m - 1)) := by
  have hyear : (y * 12 + (m - 1)) / 12 = y := by omega
  have hmonth : (y * 12 + (m - 1)) % 12 + 1 = m := by omega
  rw [monthLength, hyear, hmonth]

end

theorem monthStart_add (t : Int) (n : Nat) :
    monthStart t + 28 * n ≤ monthStart (t + n) ∧ monthStart (t + n) ≤ monthStart t + 31 * n := by
  induction n with
  | zero => simp
  | succ n ih =>
    have hsucc := monthStart_succ (t + n)
    have hbounds := days_in_month_bounds ((t + n) / 12) ((t + n) % 12 + 1)
    unfold monthLength at hsucc
    push_cast
    rw [← add_assoc]
    omega

theorem monthStart_mono {t t' : Int} (h : t ≤ t') : monthStart t ≤ monthStart t' := by
  obtain ⟨n, rfl⟩ := Int.le.dest h
  have hadd := (monthStart_add t n).1
  omega

/-! ## The date of a day -/

/-- The year of a century and the day of this year, from the days since the century began. -/
theorem day_of_year_bounds {c r yoc : Int} (hc : 0 ≤ c ∧ c < 4) (hr : 0 ≤ r ∧ r ≤ 36524)
    (hyoc : yoc = (r - (24 * c + r) / 1460) / 365) :
    0 ≤ r - (365 * yoc + yoc / 4) ∧ r - (365 * yoc + yoc / 4) ≤ 365 ∧
      (r - (365 * yoc + yoc / 4) = 365 → (yoc + 1) % 4 = 0) := by
  obtain ⟨a, ha, halo, hahi⟩ : ∃ a : Int, (24 * c + r) / 1460 = a ∧ 1460 * a ≤ 24 * c + r ∧
      24 * c + r < 1460 * a + 1460 :=
    ⟨(24 * c + r) / 1460, rfl, by omega, by omega⟩
  obtain ⟨q, k, hq, hk⟩ : ∃ q k : Int, yoc = 4 * q + k ∧ 0 ≤ k ∧ k < 4 :=
    ⟨yoc / 4, yoc % 4, by omega, by omega, by omega⟩
  have hdiv : yoc / 4 = q := by omega
  rw [ha] at hyoc
  rw [hdiv]
  have hyear : 365 * yoc ≤ r - a ∧ r - a < 365 * yoc + 365 := by omega
  -- the leap days up to the year have been counted, and its own one at most
  have hlo : q ≤ a := by omega
  have hhi : a ≤ q + 1 := by omega
  refine ⟨by omega, by omega, fun hlast => ?_⟩
  have hfourth : k = 3 := by omega
  omega

/-- The year of an era and the day of this year. Only a leap year has a day 365. -/
theorem day_of_era_bounds {doe yoe : Int} (hdoe : 0 ≤ doe ∧ doe < 146097)
    (hyoe : yoe = (doe - doe / 1460 + doe / 36524 - doe / 146096) / 365) :
    (0 ≤ yoe ∧ yoe < 400) ∧ 0 ≤ doe - (365 * yoe + yoe / 4 - yoe / 100) ∧
      doe - (365 * yoe + yoe / 4 - yoe / 100) ≤ 365 ∧
      (doe - (365 * yoe + yoe / 4 - yoe / 100) = 365 →
        (yoe + 1) % 4 = 0 ∧ (yoe + 1) % 100 ≠ 0 ∨ (yoe + 1) % 400 = 0) := by
  have hyear : 0 ≤ yoe ∧ yoe < 400 := by omega
  refine ⟨hyear, ?_⟩
  -- the last day of an era is the last one of its fourth century
  obtain ⟨c, r, hsplit, hc, hr, hcent, hlast⟩ : ∃ c r : Int, doe = 36524 * c + r ∧
      (0 ≤ c ∧ c < 4) ∧ (0 ≤ r ∧ r ≤ 36524) ∧ doe / 36524 - doe / 146096 = c ∧
      (r = 36524 → c = 3) := by
    rcases lt_or_ge doe 146096 with hlt | hge
    · exact ⟨doe / 36524, doe % 36524, by omega, by omega, by omega, by omega, by omega⟩
    · exact ⟨3, 36524, by omega, by omega, by omega, by omega, by omega⟩
  have hyoc := day_of_year_bounds hc hr rfl
  generalize (r - (24 * c + r) / 1460) / 365 = yoc at hyoc
  have hy : yoe = 100 * c + yoc := by omega
  have hlt : 0 ≤ yoc ∧ yoc < 100 := by
    obtain rfl | rfl | rfl | rfl : c = 0 ∨ c = 1 ∨ c = 2 ∨ c = 3 := by omega
    all_goals omega
  have hleaps : yoe / 4 = 25 * c + yoc / 4 := by omega
  have hcents : yoe / 100 = c := by omega
  have hdoy : doe - (365 * yoe + (25 * c + yoc / 4) - c) = r - (365 * yoc + yoc / 4) := by omega
  rw [hleaps, hcents, hdoy]
  refine ⟨hyoc.1, hyoc.2.1, fun h => ?_⟩
  have hleap := hyoc.2.2 h
  by_cases hcentury : yoc = 99
  · right
    omega
  · left
    omega

/-- A date of the calendar. -/
structure CivilDate (y m d : Int) : Prop where
  month_pos : 1 ≤ m
  month_le : m ≤ 12
  day_pos : 1 ≤ d
  day_le : d ≤ days_in_month y m

/-- The date of a day is a date of the calendar, and the day is its day. -/
theorem civil_from_days_spec (z : Int) :
    CivilDate (civil_from_days z).1 (civil_from_days z).2.1 (civil_from_days z).2.2 ∧
      days_from_civil (civil_from_days z).1 (civil_from_days z).2.1 (civil_from_days z).2.2 = z := by
  unfold civil_from_days
  dsimp only
  have hera : (if 0 ≤ z + 719468 then z + 719468 else z + 719468 - 146096).tdiv 146097 =
      (z + 719468) / 146097 := tdiv_era (z + 719468) (show (0 : Int) < 146097 by omega)
  rw [hera]
  generalize hdoe : z + 719468 - (z + 719468) / 146097 * 146097 = doe
  have hdoe' : 0 ≤ doe ∧ doe < 146097 := by omega
  generalize (z + 719468) / 146097 = era at hdoe
  have hnum : 0 ≤ doe - doe / 1460 + doe / 36524 - doe / 146096 := by omega
  rw [Int.tdiv_eq_ediv_of_nonneg hdoe'.1, Int.tdiv_eq_ediv_of_nonneg hdoe'.1,
    Int.tdiv_eq_ediv_of_nonneg hdoe'.1, Int.tdiv_eq_ediv_of_nonneg hnum]
  obtain ⟨hyoe, hdoy, hdoy', hleap⟩ := day_of_era_bounds hdoe' rfl
  generalize (doe - doe / 1460 + doe / 36524 - doe / 146096) / 365 = yoe at hyoe hdoy hdoy' hleap
  rw [Int.tdiv_eq_ediv_of_nonneg hyoe.1, Int.tdiv_eq_ediv_of_nonneg hyoe.1]
  generalize hday : doe - (365 * yoe + yoe / 4 - yoe / 100) = doy at hdoy hdoy' hleap
  rw [Int.tdiv_eq_ediv_of_nonneg (show 0 ≤ 5 * doy + 2 by omega)]
  generalize hmp : (5 * doy + 2) / 153 = mp
  have hmp' : 0 ≤ mp ∧ mp ≤ 11 := by omega
  rw [Int.tdiv_eq_ediv_of_nonneg (show 0 ≤ 153 * mp + 2 by omega)]
  constructor
  · refine ⟨?_, ?_, ?_, ?_⟩
    · show 1 ≤ if mp < 10 then mp + 3 else mp - 9
      split_ifs <;> omega
    · show (if mp < 10 then mp + 3 else mp - 9) ≤ 12
      split_ifs <;> omega
    · show 1 ≤ doy - (153 * mp + 2) / 5 + 1
      omega
    · by_cases hfeb : mp = 11
      · -- the last month of the year that began in March
        subst hfeb
        norm_num
        have hdays : days_in_month (yoe + era * 400 + 1) 2 =
            if is_leap (yoe + era * 400 + 1) then 29 else 28 := rfl
        rw [hdays]
        split_ifs with h
        · omega
        · have hne : doy ≠ 365 := by
            intro heq
            refine h ((is_leap_iff _).mpr ?_)
            have := hleap heq
            omega
          omega
      · obtain rfl | rfl | rfl | rfl | rfl | rfl | rfl | rfl | rfl | rfl | rfl : mp = 0 ∨ mp = 1 ∨
          mp = 2 ∨ mp = 3 ∨ mp = 4 ∨ mp = 5 ∨ mp = 6 ∨ mp = 7 ∨ mp = 8 ∨ mp = 9 ∨ mp = 10 := by omega
        all_goals norm_num [days_in_month]
        all_goals omega
  · have hmonth : 1 ≤ if mp < 10 then mp + 3 else mp - 9 := by
      split_ifs <;> omega
    have hyear : (yoe + era * 400) / 400 = era := by omega
    have hrest : (yoe + era * 400) % 400 = yoe := by omega
    rw [days_from_civil_eq _ hmonth]
    dsimp only
    rcases lt_or_ge mp 10 with hlt | hge
    · simp only [if_pos hlt, show ¬ mp + 3 ≤ 2 by omega, show 2 < mp + 3 by omega, if_false, if_true]
      rw [hyear, hrest, add_sub_cancel_right]
      omega
    · simp only [if_neg (not_lt.mpr hge), show mp - 9 ≤ 2 by omega, show ¬ 2 < mp - 9 by omega,
        if_false, if_true]
      rw [add_sub_cancel_right, hyear, hrest, sub_add_cancel]
      omega

end Calendar
