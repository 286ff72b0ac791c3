import VynkorPlugins.Base.Text
import VynkorPlugins.Calendar.Proofs.DateProofs

/-!
# Expansions end without an overflow

A start that is parsed has a year of four digits. From there on, and up to a horizon of this time, only
the first step of a rule can leave the integers: what comes after a step that has stayed before the
horizon stays near it.
-/

namespace Calendar

open Checked Rust Series

/-! ## What is parsed -/

section

variable {digits : List Char}

theorem num_bounds (start len : Nat) (h : ∀ c ∈ digits, c.isDigit = true) :
    0 ≤ num digits start len ∧ num digits start len < 10 ^ len := by
  have hsub : ∀ c ∈ (digits.drop start).take len, c.isDigit = true := fun c hc =>
    h c (List.mem_of_mem_drop (List.mem_of_mem_take hc))
  have hlt := digitsNat_lt hsub
  have hlen : ((digits.drop start).take len).length ≤ len := List.length_take_le _ _
  have hpow : 10 ^ ((digits.drop start).take len).length ≤ 10 ^ len :=
    Nat.pow_le_pow_right (by omega) hlen
  unfold num
  refine ⟨by omega, ?_⟩
  exact_mod_cast hlt.trans_le hpow

theorem timePart_nonneg (start : Nat) (h : ∀ c ∈ digits, c.isDigit = true) : 0 ≤ timePart digits start := by
  unfold timePart
  split_ifs
  · exact (num_bounds start 2 h).1
  · exact le_refl 0

/-- A day of the years with four digits. -/
theorem days_from_civil_bounds {y m d : Int} (hy : 0 ≤ y ∧ y ≤ 9999) (hm : 1 ≤ m ∧ m ≤ 12)
    (hd : 1 ≤ d ∧ d ≤ days_in_month y m) :
    -719528 ≤ days_from_civil y m d ∧ days_from_civil y m d ≤ 2932896 := by
  have hlength := days_in_month_monthLength (y := y) hm
  have hlo : monthStart 0 ≤ monthStart (y * 12 + (m - 1)) := monthStart_mono (by omega)
  have hhi : monthStart (y * 12 + (m - 1) + 1) ≤ monthStart 120000 := monthStart_mono (by omega)
  rw [monthStart_succ] at hhi
  have hzero : monthStart 0 = -719528 := by decide
  have hlast : monthStart 120000 = 2932897 := by decide
  rw [days_from_civil_monthStart d hm]
  omega

/-- The instants that are parsed. -/
theorem parse_dt_bounds {value : List Char} {ms : Int64} {all_day : Bool}
    (h : parse_dt value = .ok (ms, all_day)) :
    -62167219200000 ≤ ms.toInt ∧ ms.toInt ≤ 253402300800000 := by
  have hdigit : ∀ c ∈ value.filter Char.isDigit, c.isDigit = true := fun c hc =>
    (List.mem_filter.mp hc).2
  have hinstant : ∀ y m d hh mm ss : Int, (0 ≤ y ∧ y ≤ 9999) → ¬ (m < 1 ∨ 12 < m ∨ d < 1 ∨
      days_in_month y m < d) → (0 ≤ hh ∧ hh ≤ 23) → (0 ≤ mm ∧ mm ≤ 59) → (0 ≤ ss ∧ ss ≤ 60) →
      -62167219200000 ≤ (instant y m d hh mm ss).toInt ∧
        (instant y m d hh mm ss).toInt ≤ 253402300800000 := by
    intro y m d hh mm ss hy hdate hhh hmm hss
    have hdays : -719528 ≤ days_from_civil y m d ∧ days_from_civil y m d ≤ 2932896 :=
      days_from_civil_bounds hy (by omega) (by omega)
    unfold instant
    rw [Int64.toInt_ofInt_of_le (by omega) (by omega)]
    omega
  unfold parse_dt at h
  dsimp only at h
  generalize value.filter Char.isDigit = digits at h hdigit
  have hyear := num_bounds 0 4 hdigit
  generalize num digits 0 4 = y at h hyear
  generalize num digits 4 2 = m at h
  generalize num digits 6 2 = d at h
  split_ifs at h with hshort hdate hday htime
  · have hms := (Prod.mk.inj (Except.ok.inj h)).1
    have hhh := timePart_nonneg 8 hdigit
    have hmm := timePart_nonneg 10 hdigit
    have hss := timePart_nonneg 12 hdigit
    rw [← hms]
    exact hinstant y m d _ _ _ (by omega) hdate (by omega) (by omega) (by omega)
  · have hms := (Prod.mk.inj (Except.ok.inj h)).1
    rw [← hms]
    exact hinstant y m d 0 0 0 (by omega) hdate (by omega) (by omega) (by omega)

end

theorem one_le_max (a : Int64) : 1 ≤ (max a 1).toInt := by
  have hmax : max a 1 = if a ≤ 1 then 1 else a := rfl
  rw [hmax]
  split_ifs with h
  · exact le_refl 1
  · rw [Int64.le_iff_toInt_le] at h
    exact (not_le.mp h).le

theorem interval_pos (rrule : List Char) : 1 ≤ (Rule.parse rrule).interval.toInt := by
  have hstep : ∀ (rule : Rule) (part : List Char), 1 ≤ rule.interval.toInt →
      1 ≤ (rule.part part).interval.toInt := by
    intro rule part h
    unfold Rule.part
    split
    · exact h
    · split
      · exact h
      · exact one_le_max _
      · exact h
      · exact h
      · exact h
  have hall : ∀ (parts : List (List Char)) (rule : Rule), 1 ≤ rule.interval.toInt →
      1 ≤ (parts.foldl Rule.part rule).interval.toInt := by
    intro parts
    induction parts with
    | nil => exact fun rule h => h
    | cons part parts ih => exact fun rule h => ih _ (hstep rule part h)
  exact hall _ _ (le_refl 1)

/-! ## The loops -/

/-- A span of a parsed start up to a horizon of its time. -/
structure Span.Near (x : Span) : Prop where
  first_ge : -62167219200000 ≤ x.first_ms.toInt
  first_le : x.first_ms.toInt ≤ 253402300800000
  horizon_le : x.horizon_end_ms.toInt ≤ 253410076800000

section

variable {x : Span} {s : Expanded} {n cursor week : Int} {step : Except Stop Int} {fuel : Nat}
  {days : List Nat}

theorem fits_of_mul (h : Fits (n * 86400000)) : Fits n := by
  unfold Fits at h ⊢
  omega

theorem instant_checked_near (hn : -719535 ≤ n ∧ n ≤ 2933000) :
    x.instant_checked n = .ok (x.instantOf n) := by
  have hmod := Int.emod_nonneg x.first_ms.toInt (show (86400000 : Int) ≠ 0 by omega)
  have hlt := Int.emod_lt_of_pos x.first_ms.toInt (show (0 : Int) < 86400000 by omega)
  refine instant_checked_eq_ok.mpr ⟨?_, ?_, rfl⟩
  · unfold Fits
    omega
  · unfold Fits Span.instantOf
    omega

/-- A turn before the horizon leads to one whose step stays in the integers. -/
theorem fits_step_step (hx : x.Near) (hcursor : -719535 ≤ cursor)
    (hnext : ¬ x.horizon_end_ms.toInt < (cursor + n) * 86400000) (hn : 1 ≤ n) :
    Fits ((cursor + n + n) * 86400000) := by
  have hle := hx.horizon_le
  unfold Fits
  omega

theorem steps_checked_ok (hx : x.Near) (hcursor : -719535 ≤ cursor) (hfits : Fits (cursor * 86400000))
    (hstep : ¬ x.horizon_end_ms.toInt < cursor * 86400000 →
      (x.push (Int64.ofInt (x.instantOf cursor)) s).1 = true →
      ∃ n, step = .ok n ∧ 1 ≤ n ∧ Fits ((cursor + n) * 86400000))
    (hfuel : (x.horizon_end_ms.toInt / 86400000 - cursor + 1).toNat < fuel) :
    ∃ s', x.steps_checked step fuel cursor s = .ok s' := by
  induction fuel generalizing cursor s with
  | zero => omega
  | succ fuel ih =>
    have hle := hx.horizon_le
    rw [Span.steps_checked, fit_of_fits hfits]
    by_cases hpast : x.horizon_end_ms.toInt < cursor * 86400000
    · exact ⟨s, if_pos hpast⟩
    have hinstant : x.instant_checked cursor = .ok (x.instantOf cursor) :=
      instant_checked_near (by omega)
    rcases htaken : x.push (Int64.ofInt (x.instantOf cursor)) s with ⟨_ | _, s₁⟩
    · refine ⟨s₁, (if_neg hpast).trans ?_⟩
      rw [hinstant]
      dsimp only [bind, Except.bind]
      rw [htaken]
      rfl
    · obtain ⟨n, rfl, hpos, hnext⟩ := hstep hpast (by rw [htaken])
      have hgo : ∃ s', x.steps_checked (.ok n) fuel (cursor + n) s₁ = .ok s' :=
        ih (by omega) hnext (fun hpast' _ => ⟨n, rfl, hpos, fits_step_step hx hcursor hpast' hpos⟩)
          (by omega)
      obtain ⟨s', hs'⟩ := hgo
      refine ⟨s', (if_neg hpast).trans ?_⟩
      rw [hinstant]
      dsimp only [bind, Except.bind]
      rw [htaken]
      show (fit (cursor + n) >>= fun cursor_days => x.steps_checked (.ok n) fuel cursor_days s₁) = _
      rw [fit_of_fits (fits_of_mul hnext)]
      exact hs'

/-- What the first turn of a loop has computed. -/
theorem steps_checked_next {s' : Expanded} (h : x.steps_checked step fuel cursor s = .ok s')
    (hpast : ¬ x.horizon_end_ms.toInt < cursor * 86400000)
    (hgoing : (x.push (Int64.ofInt (x.instantOf cursor)) s).1 = true) :
    ∃ n, step = .ok n ∧ Fits ((cursor + n) * 86400000) := by
  cases fuel with
  | zero => cases h
  | succ fuel =>
    rw [Span.steps_checked] at h
    obtain ⟨start, hstart, h⟩ := bind_eq_ok.mp h
    obtain ⟨-, rfl⟩ := fit_eq_ok.mp hstart
    rw [if_neg hpast] at h
    obtain ⟨ms, hms, h⟩ := bind_eq_ok.mp h
    obtain ⟨-, -, rfl⟩ := instant_checked_eq_ok.mp hms
    rcases htaken : x.push (Int64.ofInt (x.instantOf cursor)) s with ⟨_ | _, s₁⟩
    · rw [htaken] at hgoing
      cases hgoing
    · rw [htaken] at h
      obtain ⟨n, hn, h⟩ := bind_eq_ok.mp h
      obtain ⟨next, hnext, h⟩ := bind_eq_ok.mp h
      obtain ⟨-, rfl⟩ := fit_eq_ok.mp hnext
      refine ⟨n, hn, ?_⟩
      cases fuel with
      | zero => cases h
      | succ fuel =>
        rw [Span.steps_checked] at h
        obtain ⟨start, hstart, -⟩ := bind_eq_ok.mp h
        exact (fit_eq_ok.mp hstart).1

theorem week_checked_ok (hweek : -719535 ≤ week ∧ week ≤ 2932990) {offsets : List Nat}
    (hoffsets : ∀ offset ∈ offsets, offset < 7) :
    ∃ r, x.week_checked days week offsets s = .ok r := by
  induction offsets generalizing s with
  | nil => exact ⟨_, rfl⟩
  | cons offset offsets ih =>
    have hlt := hoffsets offset List.mem_cons_self
    have ih' : ∀ s, ∃ r, x.week_checked days week offsets s = .ok r := fun s =>
      ih fun o ho => hoffsets o (List.mem_cons_of_mem _ ho)
    have hday : fit (week + offset) = .ok (week + offset) := fit_of_fits (by unfold Fits; omega)
    have hweekday : weekday_mon0_checked (week + offset) = .ok (weekdayOf (week + offset)) :=
      weekday_mon0_checked_eq_ok.mpr ⟨by unfold Fits; omega, rfl⟩
    have hinstant : x.instant_checked (week + offset) = .ok (x.instantOf (week + offset)) :=
      instant_checked_near (by omega)
    rw [Span.week_checked, hday]
    dsimp only [bind, Except.bind]
    rw [hweekday]
    dsimp only
    by_cases hmem : weekdayOf (week + offset) ∈ days
    · rw [if_neg (not_not.mpr hmem), hinstant]
      dsimp only
      rcases x.push (Int64.ofInt (x.instantOf (week + offset))) s with ⟨_ | _, s₁⟩
      · exact ⟨_, rfl⟩
      · exact ih' s₁
    · rw [if_pos hmem]
      exact ih' s

theorem weeks_checked_ok (hx : x.Near) (hweek : -719535 ≤ week) (hfits : Fits (week * 86400000))
    (hstep : ¬ x.horizon_end_ms.toInt < week * 86400000 →
      (∃ s', x.week_checked days week (List.range 7) s = .ok (true, s')) →
      ∃ n, step = .ok n ∧ 1 ≤ n ∧ Fits ((week + n) * 86400000))
    (hfuel : (x.horizon_end_ms.toInt / 86400000 - week + 1).toNat < fuel) :
    ∃ s', x.weeks_checked days step fuel week s = .ok s' := by
  induction fuel generalizing week s with
  | zero => omega
  | succ fuel ih =>
    have hle := hx.horizon_le
    rw [Span.weeks_checked, fit_of_fits hfits]
    by_cases hpast : x.horizon_end_ms.toInt < week * 86400000
    · exact ⟨s, if_pos hpast⟩
    have hoffsets : ∀ offset ∈ List.range 7, offset < 7 := fun _ => List.mem_range.mp
    have hdays : ∃ r, x.week_checked days week (List.range 7) s = .ok r :=
      week_checked_ok (by omega) hoffsets
    obtain ⟨⟨going, s₁⟩, hr⟩ := hdays
    cases going with
    | false =>
      refine ⟨s₁, (if_neg hpast).trans ?_⟩
      rw [hr]
      rfl
    | true =>
      obtain ⟨n, rfl, hpos, hnext⟩ := hstep hpast ⟨s₁, hr⟩
      have hgo : ∃ s', x.weeks_checked days (.ok n) fuel (week + n) s₁ = .ok s' :=
        ih (by omega) hnext (fun hpast' _ => ⟨n, rfl, hpos, fits_step_step hx hweek hpast' hpos⟩)
          (by omega)
      obtain ⟨s', hs'⟩ := hgo
      refine ⟨s', (if_neg hpast).trans ?_⟩
      rw [hr]
      show (fit (week + n) >>= fun week => x.weeks_checked days (.ok n) fuel week s₁) = _
      rw [fit_of_fits (fits_of_mul hnext)]
      exact hs'

theorem weeks_checked_next {s' s₁ : Expanded} (h : x.weeks_checked days step fuel week s = .ok s')
    (hpast : ¬ x.horizon_end_ms.toInt < week * 86400000)
    (hgoing : x.week_checked days week (List.range 7) s = .ok (true, s₁)) :
    ∃ n, step = .ok n ∧ Fits ((week + n) * 86400000) := by
  cases fuel with
  | zero => cases h
  | succ fuel =>
    rw [Span.weeks_checked] at h
    obtain ⟨start, hstart, h⟩ := bind_eq_ok.mp h
    obtain ⟨-, rfl⟩ := fit_eq_ok.mp hstart
    rw [if_neg hpast] at h
    obtain ⟨r, hr, h⟩ := bind_eq_ok.mp h
    obtain rfl := Except.ok.inj (hr.symm.trans hgoing)
    obtain ⟨n, hn, h⟩ := bind_eq_ok.mp h
    obtain ⟨next, hnext, h⟩ := bind_eq_ok.mp h
    obtain ⟨-, rfl⟩ := fit_eq_ok.mp hnext
    refine ⟨n, hn, ?_⟩
    cases fuel with
    | zero => cases h
    | succ fuel =>
      rw [Span.weeks_checked] at h
      obtain ⟨start, hstart, -⟩ := bind_eq_ok.mp h
      exact (fit_eq_ok.mp hstart).1

theorem days_from_civil_checked_ok {y m d : Int} (hy : -10000000000 ≤ y ∧ y ≤ 10000000000)
    (hm : 1 ≤ m ∧ m ≤ 12) (hd : 1 ≤ d ∧ d ≤ 31) :
    ∃ days, days_from_civil_checked y m d = .ok days := by
  refine ⟨_, days_from_civil_checked_of_fits hm hd ?_⟩
  rw [days_from_civil_eq d hm.1]
  unfold DayFits Fits
  dsimp only
  split_ifs <;> omega

/-- The months of a start with four digits in its year. -/
theorem first_month_bounds (hx : x.Near) :
    -2 ≤ x.monthOf n 0 ∧ x.monthOf n 0 ≤ 131000 := by
  obtain ⟨hday, hstart⟩ := first_month x n
  have hfirst := hx.first_ge
  have hfirst' := hx.first_le
  have hlen := (days_in_month_bounds (x.monthOf n 0 / 12) (x.monthOf n 0 % 12 + 1)).2
  unfold monthLength at hday
  have hzero : monthStart 0 = -719528 := by decide
  constructor
  · by_contra hlt
    obtain ⟨k, hk⟩ := Int.le.dest (show x.monthOf n 0 ≤ 0 by omega)
    have hadd := (monthStart_add (x.monthOf n 0) k).1
    rw [hk, hzero] at hadd
    omega
  · by_contra hlt
    obtain ⟨k, hk⟩ := Int.le.dest (show 0 ≤ x.monthOf n 0 by omega)
    have hadd := (monthStart_add 0 k).1
    rw [hk, hzero] at hadd
    omega

/-- The months up to an instant that fits. -/
theorem months_bounds (hx : x.Near) (hn : 0 ≤ n) {index : Nat} {day : Int}
    (hday : x.clampedDay (x.monthOf n index) ≤ day) :
    0 ≤ index * n ∧ 28 * (index * n) ≤ day + 719600 ∧
      -719600 ≤ x.clampedDay (x.monthOf n index) := by
  have hpos : 0 ≤ index * n := Int.mul_nonneg (Int.natCast_nonneg index) hn
  refine ⟨hpos, ?_⟩
  obtain ⟨hdate, hstart⟩ := first_month x n
  have hfirst := hx.first_ge
  have hlen := (days_in_month_bounds (x.monthOf n 0 / 12) (x.monthOf n 0 % 12 + 1)).2
  unfold monthLength at hdate
  have hmonth : x.monthOf n index = x.monthOf n 0 + (index * n).toNat := by
    rw [Int.toNat_of_nonneg hpos]
    simp [Span.monthOf]
  have hadd := (monthStart_add (x.monthOf n 0) (index * n).toNat).1
  rw [← hmonth, Int.toNat_of_nonneg hpos] at hadd
  have hle := (clampedDay_bounds x (x.monthOf n index)).1
  omega

theorem month_checked_near (hx : x.Near) (hn : 0 ≤ n) {index : Nat}
    (h : Fits (x.monthInstant n index)) :
    x.month_checked n index = .ok (x.monthInstant n index) := by
  have hmod := Int.emod_nonneg x.first_ms.toInt (show (86400000 : Int) ≠ 0 by omega)
  have hday : x.clampedDay (x.monthOf n index) ≤ 106751991167 := by
    unfold Span.monthInstant Span.instantOf Fits at h
    omega
  obtain ⟨hpos, hmonths, hlower⟩ := months_bounds hx hn hday
  have hzero := first_month_bounds (n := n) hx
  obtain ⟨hdate, -⟩ := civil_from_days_spec (x.first_ms.toInt / 86400000)
  suffices hok : ∃ ms, x.month_checked n index = .ok ms by
    obtain ⟨ms, hms⟩ := hok
    rw [hms, (month_checked_ok hms).2]
  have hm := hdate.month_pos
  have hm' := hdate.month_le
  have hd := hdate.day_pos
  unfold Span.monthOf at hzero
  rw [Nat.cast_zero, Int.zero_mul] at hzero
  unfold Span.month_checked
  dsimp only
  have hclamped := clampedDay_eq x n index
  generalize civil_from_days (x.first_ms.toInt / 86400000) = c at *
  obtain ⟨y0, m0, day_of_month⟩ := c
  generalize (index : Int) * n = months at *
  dsimp only at *
  refine bind_fit (by unfold Fits; omega) (bind_fit (by unfold Fits; omega) ?_)
  refine bind_fit (by unfold Fits; omega) ?_
  have hy : -10000000000 ≤ y0 + (m0 - 1 + months) / 12 ∧
      y0 + (m0 - 1 + months) / 12 ≤ 10000000000 := by omega
  have hm12 : 1 ≤ (m0 - 1 + months) % 12 + 1 ∧ (m0 - 1 + months) % 12 + 1 ≤ 12 := by omega
  generalize y0 + (m0 - 1 + months) / 12 = y at hy hclamped
  generalize (m0 - 1 + months) % 12 + 1 = m at hm12 hclamped
  have hdays := days_in_month_bounds y m
  obtain ⟨days, hcivil⟩ := days_from_civil_checked_ok hy hm12
    (show 1 ≤ min day_of_month (days_in_month y m) ∧ min day_of_month (days_in_month y m) ≤ 31 by omega)
  refine bind_ok hcivil ⟨x.monthInstant n index, instant_checked_eq_ok.mpr ?_⟩
  obtain rfl := days_from_civil_checked_eq_ok hcivil
  rw [← hclamped]
  refine ⟨?_, h, rfl⟩
  unfold Fits
  omega

/-- A month before the horizon leads to one in the integers. -/
theorem fits_month_month (hx : x.Near) (hn : 1 ≤ n) {k : Nat}
    (hnext : ¬ x.horizon_end_ms.toInt < x.monthInstant n (k + 1)) :
    Fits (x.monthInstant n (k + 2)) := by
  have hle := hx.horizon_le
  have hmod := Int.emod_nonneg x.first_ms.toInt (show (86400000 : Int) ≠ 0 by omega)
  have hlt := Int.emod_lt_of_pos x.first_ms.toInt (show (0 : Int) < 86400000 by omega)
  have hday : x.clampedDay (x.monthOf n (k + 1)) ≤ 2933000 := by
    unfold Span.monthInstant Span.instantOf at hnext
    omega
  obtain ⟨-, hmonths, hlower⟩ := months_bounds hx (by omega) hday
  -- one interval is at most all of them
  have hinterval : n ≤ ((k + 1 : Nat) : Int) * n := by
    have hmul : 1 * n ≤ ((k + 1 : Nat) : Int) * n :=
      Int.mul_le_mul_of_nonneg_right (by omega) (by omega)
    rwa [Int.one_mul] at hmul
  have hmonth : x.monthOf n (k + 2) + 1 = x.monthOf n (k + 1) + ((n.toNat + 1 : Nat) : Int) := by
    unfold Span.monthOf
    push_cast
    rw [Int.toNat_of_nonneg (by omega)]
    ring
  have hadd := (monthStart_add (x.monthOf n (k + 1)) (n.toNat + 1)).2
  rw [← hmonth] at hadd
  have hupper := (clampedDay_bounds x (x.monthOf n (k + 2))).2
  have hstart := (clampedDay_bounds x (x.monthOf n (k + 1))).1
  have hmono : monthStart (x.monthOf n (k + 1)) ≤ monthStart (x.monthOf n (k + 2)) := by
    refine monthStart_mono ?_
    push_cast at hmonth
    omega
  have hlower' := (clampedDay_bounds x (x.monthOf n (k + 2))).1
  have hgap := (clampedDay_bounds x (x.monthOf n (k + 1))).2
  rw [monthStart_succ] at hgap
  have hlen := days_in_month_bounds (x.monthOf n (k + 1) / 12) (x.monthOf n (k + 1) % 12 + 1)
  unfold monthLength at hgap
  unfold Fits Span.monthInstant Span.instantOf
  omega

theorem months_checked_ok (hx : x.Near) (hn : 1 ≤ n) {k left : Nat} (hk : k + left = 1200)
    (h : Fits (x.monthInstant n (k + 1))) : ∃ s', x.months_checked n left s = .ok s' := by
  induction left generalizing k s with
  | zero =>
    obtain rfl : k = 1200 := by omega
    rw [Span.months_checked]
    exact bind_ok (month_checked_near hx (by omega) h) ⟨s, rfl⟩
  | succ left ih =>
    have hindex : (1200 : Int) - left = ((k + 1 : Nat) : Int) := by omega
    rw [Span.months_checked, hindex]
    refine bind_ok (month_checked_near hx (by omega) h) ?_
    by_cases hpast : x.horizon_end_ms.toInt < x.monthInstant n (k + 1)
    · exact ⟨s, if_pos hpast⟩
    · rw [if_neg hpast]
      rcases x.push (Int64.ofInt (x.monthInstant n (k + 1))) s with ⟨_ | _, s₁⟩
      · exact ⟨s₁, rfl⟩
      · exact ih (by omega) (fits_month_month hx hn hpast)

end

/-! ## Expansions -/

/-- The first step of a rule stays in the integers, as far as it is taken. It is not taken where the
    first turn is past the horizon, and where the days of the first week end the expansion. -/
def Advances (rule : Rule) (first_ms horizon_end_ms : Int64) (count_remaining : Option Int64)
    (max_occurrences : Nat) : Prop :=
  let x := rule.span first_ms horizon_end_ms max_occurrences
  let interval := rule.interval.toInt
  let day := first_ms.toInt / 86400000
  match String.ofList rule.freq with
  | "DAILY" => horizon_end_ms.toInt < day * 86400000 ∨ Fits ((day + interval) * 86400000)
  | "WEEKLY" =>
    if rule.byday = [] then
      horizon_end_ms.toInt < day * 86400000 ∨ Fits ((day + 7 * interval) * 86400000)
    else
      horizon_end_ms.toInt < weekStart day * 86400000 ∨
        ¬ x.bounds.Going (count_remaining.map Int64.toInt)
          (x.weekOffers rule.byday (weekStart day) (7 * interval) 0) ∨
        Fits ((weekStart day + 7 * interval) * 86400000)
  | "MONTHLY" => Fits (x.monthInstant interval 1)
  | _ => True

theorem weekOffers_sorted (x : Span) (days : List Nat) (week n : Int) (k : Nat) :
    (x.weekOffers days week n k).Pairwise (· < ·) := by
  unfold Span.weekOffers weekDays
  rw [List.pairwise_map]
  refine List.Pairwise.filter _ ?_
  rw [List.pairwise_map]
  refine List.pairwise_lt_range.imp fun h => ?_
  unfold Span.instantOf
  omega

/-- The first turn of a loop over days takes nothing. -/
theorem push_first (x : Span) (s : Expanded) :
    (x.push (Int64.ofInt (x.instantOf (x.first_ms.toInt / 86400000))) s).1 = true := by
  have hfirst : Int64.ofInt (x.instantOf (x.first_ms.toInt / 86400000)) = x.first_ms := by
    unfold Span.instantOf
    rw [Int.mul_comm, Int.mul_ediv_add_emod, Int64.ofInt_toInt]
  rw [hfirst, Span.push, if_pos (.inl (Int64.le_refl _))]

section

variable {x : Span} {s : Expanded} {n week : Int} {step : Except Stop Int} {days : List Nat}

theorem first_day_bounds (hx : x.Near) :
    -719528 ≤ x.first_ms.toInt / 86400000 ∧ x.first_ms.toInt / 86400000 ≤ 2932897 := by
  have hlo := hx.first_ge
  have hhi := hx.first_le
  omega

theorem steps_checked_ends_iff (hx : x.Near) (hn : 1 ≤ n) (hstep : ∀ m, step = .ok m → m = n)
    (hfits : Fits n → step = .ok n) :
    (∃ fuel s', x.steps_checked step fuel (x.first_ms.toInt / 86400000) s = .ok s') ↔
      x.horizon_end_ms.toInt < x.first_ms.toInt / 86400000 * 86400000 ∨
        Fits ((x.first_ms.toInt / 86400000 + n) * 86400000) := by
  have hday := first_day_bounds hx
  constructor
  · rintro ⟨fuel, s', h⟩
    by_cases hpast : x.horizon_end_ms.toInt < x.first_ms.toInt / 86400000 * 86400000
    · exact .inl hpast
    · obtain ⟨m, hm, hnext⟩ := steps_checked_next h hpast (push_first x s)
      obtain rfl := hstep m hm
      exact .inr hnext
  · intro h
    refine ⟨_, steps_checked_ok hx (by omega) (by unfold Fits; omega) (fun hpast _ => ?_)
      (Nat.lt_succ_self _)⟩
    have hnext := h.resolve_left hpast
    refine ⟨n, hfits ?_, hn, hnext⟩
    unfold Fits at hnext ⊢
    omega

theorem weeks_checked_ends_iff (hx : x.Near) (hn : 1 ≤ n) (hstep : ∀ m, step = .ok m → m = n)
    (hfits : Fits n → step = .ok n) (hweek : -719535 ≤ week ∧ week ≤ 2932990) {count : Option Int64} :
    (∃ fuel s', x.weeks_checked days step fuel week ⟨[], count⟩ = .ok s') ↔
      x.horizon_end_ms.toInt < week * 86400000 ∨
        ¬ x.bounds.Going (count.map Int64.toInt) (x.weekOffers days week n 0) ∨
        Fits ((week + n) * 86400000) := by
  have hspec := (Bounds.pushAll_spec x.bounds (count.map Int64.toInt)
    (weekOffers_sorted x days week n 0)).1
  have hoffers : x.weekOffers days week n 0 = (weekDays days week (List.range 7)).map x.instantOf := by
    unfold Span.weekOffers
    rw [Nat.cast_zero, Int.zero_mul, Int.add_zero]
  rw [hoffers] at hspec ⊢
  have hgoing : ∀ {going s'}, x.week_checked days week (List.range 7) ⟨[], count⟩ = .ok (going, s') →
      (going = true ↔ x.bounds.Going (count.map Int64.toInt)
        ((weekDays days week (List.range 7)).map x.instantOf)) := by
    intro going s' h
    have hpush := week_pushAll h
    rw [← hspec]
    show _ ↔ (x.bounds.pushAll _ (Expanded.taken ⟨[], count⟩)).1 = true
    rw [hpush]
  constructor
  · rintro ⟨fuel, s', h⟩
    by_cases hpast : x.horizon_end_ms.toInt < week * 86400000
    · exact .inl hpast
    · refine .inr ((em _).elim (fun hgo => .inr ?_) .inl)
      have hoffsets : ∀ offset ∈ List.range 7, offset < 7 := fun _ => List.mem_range.mp
      obtain ⟨⟨going, s₁⟩, hr⟩ : ∃ r, x.week_checked days week (List.range 7) ⟨[], count⟩ = .ok r :=
        week_checked_ok hweek hoffsets
      obtain rfl := (hgoing hr).mpr hgo
      obtain ⟨m, hm, hnext⟩ := weeks_checked_next h hpast hr
      obtain rfl := hstep m hm
      exact hnext
  · intro h
    refine ⟨_, weeks_checked_ok hx hweek.1 (by unfold Fits; omega) (fun hpast hr => ?_)
      (Nat.lt_succ_self _)⟩
    obtain ⟨s', hr⟩ := hr
    have hnext := (h.resolve_left hpast).resolve_left (not_not.mpr ((hgoing hr).mp rfl))
    refine ⟨n, hfits ?_, hn, hnext⟩
    unfold Fits at hnext ⊢
    omega

theorem months_checked_ends_iff (hx : x.Near) (hn : 1 ≤ n) :
    (∃ s', x.months_checked n 1200 s = .ok s') ↔ Fits (x.monthInstant n 1) := by
  constructor
  · rintro ⟨s', h⟩
    rw [Span.months_checked] at h
    obtain ⟨ms, hms, -⟩ := bind_eq_ok.mp h
    obtain ⟨hfits, rfl⟩ := month_checked_ok (show x.month_checked n ((1 : Nat) : Int) = .ok ms from hms)
    exact hfits
  · exact fun h => months_checked_ok hx hn (Nat.zero_add 1200) h

end

/-- The expansion of a parsed start up to 90 days behind a clock with four digits in its year comes to an
    end, and no result leaves the integers, exactly if the first step of the rule stays in them. -/
theorem expand_rrule_ends_iff {value rrule : List Char} {all_day : Bool}
    {first_ms clock horizon_end_ms : Int64} {count_remaining : Option Int64} {max_occurrences : Nat}
    (hstart : parse_dt value = .ok (first_ms, all_day)) (hclock : clock.toInt < 253402300800000)
    (hhorizon : horizon_end_ms.toInt ≤ clock.toInt + 90 * 86400000) :
    (∃ fuel out, expand_rrule_checked fuel first_ms rrule horizon_end_ms count_remaining
      max_occurrences = .ok out) ↔
      Advances (Rule.parse rrule) first_ms horizon_end_ms count_remaining max_occurrences := by
  obtain ⟨hlo, hhi⟩ := parse_dt_bounds hstart
  have hinterval := interval_pos rrule
  have hloop : (∃ fuel out, expand_rrule_checked fuel first_ms rrule horizon_end_ms count_remaining
      max_occurrences = .ok out) ↔ ∃ fuel s', (Rule.parse rrule).expand_checked
        ((Rule.parse rrule).span first_ms horizon_end_ms max_occurrences) fuel
        ⟨[], count_remaining⟩ = .ok s' := by
    refine exists_congr fun fuel => ?_
    simp only [expand_rrule_checked, map_eq_ok]
    exact ⟨fun ⟨_, s', h, _⟩ => ⟨s', h⟩, fun ⟨s', h⟩ => ⟨_, s', h, rfl⟩⟩
  rw [hloop]
  generalize Rule.parse rrule = rule at hinterval
  have hx : (rule.span first_ms horizon_end_ms max_occurrences).Near := ⟨hlo, hhi, by
    show horizon_end_ms.toInt ≤ _
    omega⟩
  have hday := first_day_bounds hx
  have hfit : ∀ n m, fit n = .ok m → m = n := fun n m h => (fit_eq_ok.mp h).2
  unfold Rule.expand_checked Advances
  dsimp only
  generalize String.ofList rule.freq = freq
  split
  · -- daily
    exact steps_checked_ends_iff hx hinterval (fun m h => (Except.ok.inj h).symm) fun _ => rfl
  · by_cases hbyday : rule.byday = []
    · -- weekly from the start on
      simp only [if_pos hbyday]
      exact steps_checked_ends_iff hx (by omega) (hfit _) fit_of_fits
    · -- weekly on some days
      have hlt := weekdayOf_lt (first_ms.toInt / 86400000)
      have hweekday : weekday_mon0_checked (first_ms.toInt / 86400000) =
          .ok (weekdayOf (first_ms.toInt / 86400000)) := by
        refine weekday_mon0_checked_eq_ok.mpr ⟨?_, rfl⟩
        show Fits (first_ms.toInt / 86400000 + 3)
        unfold Fits
        omega
      have hstart : fit (first_ms.toInt / 86400000 - weekdayOf (first_ms.toInt / 86400000)) =
          .ok (weekStart (first_ms.toInt / 86400000)) := by
        refine fit_of_fits ?_
        unfold Fits
        omega
      have hbounds : -719535 ≤ weekStart (first_ms.toInt / 86400000) ∧
          weekStart (first_ms.toInt / 86400000) ≤ 2932990 := by
        unfold weekStart
        omega
      simp only [if_neg hbyday]
      refine Iff.trans ?_ (weeks_checked_ends_iff hx (show 1 ≤ 7 * rule.interval.toInt by omega)
        (hfit _) fit_of_fits hbounds)
      refine exists_congr fun fuel => exists_congr fun s' => ?_
      show (weekday_mon0_checked (first_ms.toInt / 86400000) >>= _) = _ ↔ _
      rw [hweekday]
      show (fit (first_ms.toInt / 86400000 - weekdayOf (first_ms.toInt / 86400000)) >>= _) = _ ↔ _
      rw [hstart]
      rfl
  · -- monthly
    constructor
    · rintro ⟨_, s', h⟩
      exact (months_checked_ends_iff hx hinterval).mp ⟨s', h⟩
    · exact fun h => ⟨0, (months_checked_ends_iff hx hinterval).mpr h⟩
  · -- not expanded
    rename_i hdaily hweekly hmonthly
    refine ⟨fun _ => ?_, fun _ => ⟨0, _, rfl⟩⟩
    -- where the two matches are one, it is settled already
    first
    | exact True.intro
    | split
      · exact absurd rfl hdaily
      · exact absurd rfl hweekly
      · exact absurd rfl hmonthly
      · exact True.intro

/-- Every day, from the first of September of 2026 on. -/
theorem expand_rrule_ends_iff_daily :
    (∃ fuel out, expand_rrule_checked fuel 1788253200000 "FREQ=DAILY".toList 1789000000000 none 500 =
      .ok out) ↔ Advances (Rule.parse "FREQ=DAILY".toList) 1788253200000 1789000000000 none 500 :=
  expand_rrule_ends_iff (show parse_dt "20260901T090000Z".toList = .ok (1788253200000, false) by
    decide) (show (1788253200000 : Int64).toInt < 253402300800000 by decide) (by decide)

/-- An interval of the largest integer leaves the integers behind the first day. -/
theorem longest_interval_overflows :
    parse_dt "20260901T090000Z".toList = .ok (1788253200000, false) ∧
      ¬ ∃ fuel out, expand_rrule_checked fuel 1788253200000
        "FREQ=DAILY;INTERVAL=9223372036854775807".toList 1789000000000 none 500 = .ok out := by
  refine ⟨by decide, ?_⟩
  rintro ⟨fuel, out, h⟩
  obtain ⟨s', h, -⟩ := map_eq_ok.mp h
  have hfreq : String.ofList (Rule.parse "FREQ=DAILY;INTERVAL=9223372036854775807".toList).freq =
      "DAILY" := by decide
  have hinterval : (Rule.parse "FREQ=DAILY;INTERVAL=9223372036854775807".toList).interval.toInt =
      9223372036854775807 := by decide
  unfold Rule.expand_checked at h
  simp only [hfreq, hinterval] at h
  obtain ⟨n, hn, hfits⟩ := steps_checked_next h (by decide) (push_first _ _)
  obtain rfl := Except.ok.inj hn
  exact absurd hfits (by decide)

end Calendar
