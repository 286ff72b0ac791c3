import VynkorPlugins.Base.Series
import VynkorPlugins.Calendar.Ics
import VynkorPlugins.Calendar.Proofs.CivilProofs
import Mathlib.Tactic.Ring

/-!
# The loops of an expansion

A loop with checked integers computes what the loop without them computes, and it runs over the turns of
a series. It comes to an end without an overflow exactly if its first step does not leave the integers.
-/

namespace Calendar

open Checked Rust Series

/-! ## One turn -/

section

variable {x : Span} {s s' : Expanded} {n m : Int}

/-- What has been expanded, without the width of the integers. -/
def Expanded.taken (s : Expanded) : Taken Int :=
  { out := s.out.map Int64.toInt, left := s.count.map Int64.toInt }

def Span.bounds (x : Span) : Bounds Int where
  after := x.first_ms.toInt
  upto := x.horizon_end_ms.toInt
  last := x.until_ms.map Int64.toInt
  most := x.max_occurrences

/-- An instant is taken by the span if it is taken by its bounds. -/
theorem bounds_push (x : Span) (s : Expanded) (h : Fits n) :
    x.bounds.push n s.taken = ((x.push (Int64.ofInt n) s).1, (x.push (Int64.ofInt n) s).2.taken) := by
  have hn := h.toInt_ofInt
  have hlast : (x.until_ms.map Int64.toInt).any (· < n) = x.until_ms.any (· < Int64.ofInt n) := by
    cases x.until_ms with
    | none => rfl
    | some l => simp [Int64.lt_iff_toInt_lt, hn]
  have hleft : (s.count.map Int64.toInt).any (· ≤ 0) = s.count.any (· ≤ 0) := by
    cases s.count with
    | none => rfl
    | some c => simp [Int64.le_iff_toInt_le]
  have hskip : (n ≤ x.first_ms.toInt ∨ x.horizon_end_ms.toInt < n) ↔
      (Int64.ofInt n ≤ x.first_ms ∨ x.horizon_end_ms < Int64.ofInt n) := by
    rw [Int64.le_iff_toInt_le, Int64.lt_iff_toInt_lt, hn]
  unfold Bounds.push Span.push Span.bounds Expanded.taken
  dsimp only
  rw [if_congr hskip rfl rfl, hlast, hleft]
  split_ifs with hs hl hc
  · rfl
  · rfl
  · rfl
  · have hcount : (s.count.map Int64.toInt).map (· - 1) = (s.count.map (· - 1)).map Int64.toInt := by
      cases hs : s.count with
      | none => rfl
      | some c =>
        rw [hs] at hc
        have hpos : ¬ c ≤ 0 := by simpa using hc
        rw [Int64.le_iff_toInt_le, show (0 : Int64).toInt = 0 from rfl] at hpos
        have hlt := c.toInt_lt
        have hsub : (c - 1).toInt = c.toInt - 1 :=
          toInt_sub_of_nonneg (Int64.le_iff_toInt_le.mpr (by simpa using by omega)) (by decide)
        simp [hsub]
    rw [hcount]
    simp [hn]

/-- The instant of a day, at the time of the first one. -/
def Span.instantOf (x : Span) (days : Int) : Int := days * 86400000 + x.first_ms.toInt % 86400000

theorem instant_checked_eq_ok : x.instant_checked n = .ok m ↔
    Fits (n * 86400000) ∧ Fits (x.instantOf n) ∧ m = x.instantOf n := by
  unfold Span.instant_checked
  rw [bind_eq_ok]
  constructor
  · rintro ⟨start, hstart, h⟩
    obtain ⟨hfits, rfl⟩ := fit_eq_ok.mp hstart
    obtain ⟨hfits', rfl⟩ := fit_eq_ok.mp h
    exact ⟨hfits, hfits', rfl⟩
  · rintro ⟨hfits, hfits', rfl⟩
    exact ⟨_, fit_of_fits hfits, fit_of_fits hfits'⟩

/-- The instant of a day, as the sums that wrap give it. -/
theorem ofInt_instant (x : Span) (n : Int) :
    Int64.ofInt n * MS_PER_DAY + x.time_of_day = Int64.ofInt (x.instantOf n) := by
  rw [Span.instantOf, Int64.ofInt_add, Int64.ofInt_mul]
  rfl

theorem lt_ofInt (a : Int64) (h : Fits n) : a < Int64.ofInt n ↔ a.toInt < n := by
  rw [Int64.lt_iff_toInt_lt, h.toInt_ofInt]

/-- The weekday of a day. -/
def weekdayOf (days : Int) : Nat := ((days + 3) % 7).toNat

theorem weekday_mon0_checked_eq_ok {w : Nat} :
    weekday_mon0_checked n = .ok w ↔ Fits (n + 3) ∧ w = weekdayOf n := by
  have hmod : ((n + 3).tmod 7 + 7).toNat % 7 = ((n + 3) % 7).toNat := by
    have hdiv := Int.tmod_add_mul_tdiv (n + 3) 7
    have hlt := Int.tmod_lt_of_pos (n + 3) (show (0 : Int) < 7 by omega)
    have hgt := Int.lt_tmod_of_pos (n + 3) (show (0 : Int) < 7 by omega)
    omega
  unfold weekday_mon0_checked
  rw [bind_eq_ok]
  constructor
  · rintro ⟨shifted, hshifted, h⟩
    obtain ⟨hfits, rfl⟩ := fit_eq_ok.mp hshifted
    exact ⟨hfits, (Except.ok.inj h).symm.trans hmod⟩
  · rintro ⟨hfits, rfl⟩
    exact ⟨_, fit_of_fits hfits, congrArg Except.ok hmod⟩

theorem weekdayOf_lt (n : Int) : weekdayOf n < 7 := by
  unfold weekdayOf
  omega

/-- The first day of the week of a day. -/
def weekStart (days : Int) : Int := days - weekdayOf days

theorem days_from_civil_checked_eq_ok {y m d days : Int}
    (h : days_from_civil_checked y m d = .ok days) : days = days_from_civil y m d := by
  unfold days_from_civil_checked at h
  obtain ⟨y', hy, h⟩ := bind_eq_ok.mp h
  obtain ⟨dividend, hdividend, h⟩ := bind_eq_ok.mp h
  obtain ⟨years, hyears, h⟩ := bind_eq_ok.mp h
  obtain ⟨yoe, hyoe, h⟩ := bind_eq_ok.mp h
  obtain ⟨start, hstart, h⟩ := bind_eq_ok.mp h
  obtain ⟨sum, hsum, h⟩ := bind_eq_ok.mp h
  obtain ⟨-, rfl⟩ := fit_eq_ok.mp hy
  obtain ⟨-, rfl⟩ := fit_eq_ok.mp hdividend
  obtain ⟨-, rfl⟩ := fit_eq_ok.mp hyears
  obtain ⟨-, rfl⟩ := fit_eq_ok.mp hyoe
  obtain ⟨-, rfl⟩ := fit_eq_ok.mp hstart
  obtain ⟨-, rfl⟩ := fit_eq_ok.mp hsum
  obtain ⟨-, rfl⟩ := fit_eq_ok.mp h
  rfl

end

/-! ## The loops as series -/

section

variable {x : Span} {s s' : Expanded} {n m interval : Int} {fuel k : Nat}

/-- One turn of the loops that take steps. -/
def Span.stepOffers (x : Span) (cursor_days n : Int) (k : Nat) : List Int :=
  [x.instantOf (cursor_days + k * n)]

/-- The loops that take steps are past the range at the day of a turn. -/
def Span.stepPast (x : Span) (cursor_days n : Int) (k : Nat) : Bool :=
  x.horizon_end_ms.toInt < (cursor_days + k * n) * 86400000

theorem step_next (cursor_days n : Int) (k : Nat) :
    cursor_days + k * n + n = cursor_days + ((k + 1 : Nat) : Int) * n := by
  push_cast
  ring

theorem steps_turns {step : Except Stop Int} {cursor_days : Int} (hstep : ∀ m, step = .ok m → m = n)
    (h : x.steps_checked step fuel (cursor_days + k * n) s = .ok s') :
    x.bounds.turns (x.stepPast cursor_days n) (x.stepOffers cursor_days n) fuel k s.taken =
      some s'.taken := by
  induction fuel generalizing k s with
  | zero => cases h
  | succ fuel ih =>
    rw [Span.steps_checked] at h
    obtain ⟨start, hstart, h⟩ := bind_eq_ok.mp h
    obtain ⟨-, rfl⟩ := fit_eq_ok.mp hstart
    rw [Bounds.turns]
    by_cases hpast : x.horizon_end_ms.toInt < (cursor_days + k * n) * 86400000
    · rw [if_pos hpast] at h
      obtain rfl := Except.ok.inj h
      exact if_pos (decide_eq_true hpast)
    · rw [if_neg hpast] at h
      obtain ⟨ms, hms, h⟩ := bind_eq_ok.mp h
      obtain ⟨-, hfits, rfl⟩ := instant_checked_eq_ok.mp hms
      have hpast' : ¬ x.stepPast cursor_days n k = true := by
        simpa [Span.stepPast] using hpast
      have hpush : x.bounds.pushAll (x.stepOffers cursor_days n k) s.taken = _ :=
        (Bounds.pushAll_singleton s.taken).trans (bounds_push x s hfits)
      rw [if_neg hpast', hpush]
      rcases htaken : x.push (Int64.ofInt (x.instantOf (cursor_days + k * n))) s with ⟨_ | _, s₁⟩
      · rw [htaken] at h
        obtain rfl := Except.ok.inj h
        rfl
      · rw [htaken] at h
        obtain ⟨days, hdays, h⟩ := bind_eq_ok.mp h
        obtain ⟨next, hnext, h⟩ := bind_eq_ok.mp h
        obtain rfl := hstep days hdays
        obtain ⟨-, rfl⟩ := fit_eq_ok.mp hnext
        rw [step_next] at h
        exact ih h

/-- The days of a week that a rule names. -/
def weekDays (days : List Nat) (week : Int) (offsets : List Nat) : List Int :=
  (offsets.map fun offset : Nat => week + offset).filter fun day => weekdayOf day ∈ days

theorem week_pushAll {days offsets : List Nat} {going : Bool}
    (h : x.week_checked days n offsets s = .ok (going, s')) :
    x.bounds.pushAll ((weekDays days n offsets).map x.instantOf) s.taken = (going, s'.taken) := by
  induction offsets generalizing s with
  | nil =>
    obtain ⟨rfl, rfl⟩ := Prod.mk.inj (Except.ok.inj h)
    rfl
  | cons offset offsets ih =>
    rw [Span.week_checked] at h
    obtain ⟨day, hday, h⟩ := bind_eq_ok.mp h
    obtain ⟨-, rfl⟩ := fit_eq_ok.mp hday
    obtain ⟨weekday, hweekday, h⟩ := bind_eq_ok.mp h
    obtain ⟨-, rfl⟩ := weekday_mon0_checked_eq_ok.mp hweekday
    by_cases hmem : weekdayOf (n + offset) ∈ days
    · rw [if_neg (not_not.mpr hmem)] at h
      obtain ⟨ms, hms, h⟩ := bind_eq_ok.mp h
      obtain ⟨-, hfits, rfl⟩ := instant_checked_eq_ok.mp hms
      have hdays : weekDays days n (offset :: offsets) = (n + offset) :: weekDays days n offsets := by
        simp [weekDays, hmem]
      rw [hdays, List.map_cons, Bounds.pushAll, bounds_push x s hfits]
      rcases htaken : x.push (Int64.ofInt (x.instantOf (n + offset))) s with ⟨_ | _, s₁⟩
      · rw [htaken] at h
        obtain ⟨rfl, rfl⟩ := Prod.mk.inj (Except.ok.inj h)
        rfl
      · rw [htaken] at h
        exact ih h
    · rw [if_pos hmem] at h
      have hdays : weekDays days n (offset :: offsets) = weekDays days n offsets := by
        simp [weekDays, hmem]
      rw [hdays]
      exact ih h

/-- One turn of the loop over weeks. -/
def Span.weekOffers (x : Span) (days : List Nat) (week n : Int) (k : Nat) : List Int :=
  (weekDays days (week + k * n) (List.range 7)).map x.instantOf

theorem weeks_turns {days : List Nat} {step : Except Stop Int} {week : Int}
    (hstep : ∀ m, step = .ok m → m = n)
    (h : x.weeks_checked days step fuel (week + k * n) s = .ok s') :
    x.bounds.turns (x.stepPast week n) (x.weekOffers days week n) fuel k s.taken = some s'.taken := by
  induction fuel generalizing k s with
  | zero => cases h
  | succ fuel ih =>
    rw [Span.weeks_checked] at h
    obtain ⟨start, hstart, h⟩ := bind_eq_ok.mp h
    obtain ⟨-, rfl⟩ := fit_eq_ok.mp hstart
    rw [Bounds.turns]
    by_cases hpast : x.horizon_end_ms.toInt < (week + k * n) * 86400000
    · rw [if_pos hpast] at h
      obtain rfl := Except.ok.inj h
      exact if_pos (decide_eq_true hpast)
    · rw [if_neg hpast] at h
      obtain ⟨⟨going, s₁⟩, hweek, h⟩ := bind_eq_ok.mp h
      have hpast' : ¬ x.stepPast week n k = true := by
        simpa [Span.stepPast] using hpast
      have hpush : x.bounds.pushAll (x.weekOffers days week n k) s.taken = (going, s₁.taken) :=
        week_pushAll hweek
      rw [if_neg hpast', hpush]
      cases going with
      | false =>
        obtain rfl := Except.ok.inj h
        rfl
      | true =>
        obtain ⟨days', hdays, h⟩ := bind_eq_ok.mp h
        obtain ⟨next, hnext, h⟩ := bind_eq_ok.mp h
        obtain rfl := hstep days' hdays
        obtain ⟨-, rfl⟩ := fit_eq_ok.mp hnext
        rw [step_next] at h
        exact ih h

/-- The month of a turn, counted from the year 0 on. -/
def Span.monthOf (x : Span) (interval : Int) (index : Nat) : Int :=
  (civil_from_days (x.first_ms.toInt / 86400000)).1 * 12 +
    ((civil_from_days (x.first_ms.toInt / 86400000)).2.1 - 1) + index * interval

/-- The day of the first one in a month, or the last day of a shorter month. -/
def Span.clampedDay (x : Span) (month : Int) : Int :=
  monthStart month +
    (min (civil_from_days (x.first_ms.toInt / 86400000)).2.2 (monthLength month) - 1)

/-- The instant of a turn over months. -/
def Span.monthInstant (x : Span) (interval : Int) (index : Nat) : Int :=
  x.instantOf (x.clampedDay (x.monthOf interval index))

theorem clampedDay_eq (x : Span) (interval : Int) (index : Nat) :
    x.clampedDay (x.monthOf interval index) =
      days_from_civil
        ((civil_from_days (x.first_ms.toInt / 86400000)).1 +
          ((civil_from_days (x.first_ms.toInt / 86400000)).2.1 - 1 + index * interval) / 12)
        (((civil_from_days (x.first_ms.toInt / 86400000)).2.1 - 1 + index * interval) % 12 + 1)
        (min (civil_from_days (x.first_ms.toInt / 86400000)).2.2
          (days_in_month
            ((civil_from_days (x.first_ms.toInt / 86400000)).1 +
              ((civil_from_days (x.first_ms.toInt / 86400000)).2.1 - 1 + index * interval) / 12)
            (((civil_from_days (x.first_ms.toInt / 86400000)).2.1 - 1 + index * interval) % 12 + 1))) := by
  unfold Span.clampedDay monthStart monthLength Span.monthOf
  generalize civil_from_days (x.first_ms.toInt / 86400000) = c
  have hsum : c.1 * 12 + (c.2.1 - 1) + index * interval = c.2.1 - 1 + index * interval + c.1 * 12 := by
    ring
  rw [hsum]
  generalize c.2.1 - 1 + index * interval = total
  have hyear : (total + c.1 * 12) / 12 = c.1 + total / 12 := by omega
  have hmonth : (total + c.1 * 12) % 12 = total % 12 := by omega
  rw [hyear, hmonth, ← days_from_civil_day]

/-- The first day is the one of its own month. -/
theorem first_month (x : Span) (interval : Int) :
    (1 ≤ (civil_from_days (x.first_ms.toInt / 86400000)).2.2 ∧
      (civil_from_days (x.first_ms.toInt / 86400000)).2.2 ≤ monthLength (x.monthOf interval 0)) ∧
      monthStart (x.monthOf interval 0) =
        x.first_ms.toInt / 86400000 - ((civil_from_days (x.first_ms.toInt / 86400000)).2.2 - 1) := by
  obtain ⟨hdate, hday⟩ := civil_from_days_spec (x.first_ms.toInt / 86400000)
  unfold Span.monthOf monthStart monthLength
  generalize civil_from_days (x.first_ms.toInt / 86400000) = c at hdate hday
  have hm := hdate.month_pos
  have hm' := hdate.month_le
  have hyear : (c.1 * 12 + (c.2.1 - 1) + (0 : Nat) * interval) / 12 = c.1 := by
    rw [Nat.cast_zero, Int.zero_mul]
    omega
  have hmonth : (c.1 * 12 + (c.2.1 - 1) + (0 : Nat) * interval) % 12 + 1 = c.2.1 := by
    rw [Nat.cast_zero, Int.zero_mul]
    omega
  rw [hyear, hmonth]
  refine ⟨⟨hdate.day_pos, hdate.day_le⟩, ?_⟩
  rw [days_from_civil_day] at hday
  omega

theorem clampedDay_bounds (x : Span) (month : Int) :
    monthStart month ≤ x.clampedDay month ∧ x.clampedDay month < monthStart (month + 1) := by
  obtain ⟨⟨hd, -⟩, -⟩ := first_month x 0
  have hlen := days_in_month_bounds (month / 12) (month % 12 + 1)
  rw [monthStart_succ]
  unfold Span.clampedDay monthLength
  omega

theorem month_checked_ok {index : Nat} {ms : Int}
    (h : x.month_checked interval index = .ok ms) :
    Fits ms ∧ ms = x.monthInstant interval index := by
  unfold Span.month_checked at h
  dsimp only at h
  obtain ⟨months, hmonths, h⟩ := bind_eq_ok.mp h
  obtain ⟨total, htotal, h⟩ := bind_eq_ok.mp h
  obtain ⟨y, hy, h⟩ := bind_eq_ok.mp h
  obtain ⟨days, hdays, h⟩ := bind_eq_ok.mp h
  obtain ⟨-, rfl⟩ := fit_eq_ok.mp hmonths
  obtain ⟨-, rfl⟩ := fit_eq_ok.mp htotal
  obtain ⟨-, rfl⟩ := fit_eq_ok.mp hy
  obtain rfl := days_from_civil_checked_eq_ok hdays
  obtain ⟨-, hfits, rfl⟩ := instant_checked_eq_ok.mp h
  refine ⟨hfits, ?_⟩
  rw [Span.monthInstant, clampedDay_eq]

def Span.monthOffers (x : Span) (interval : Int) (k : Nat) : List Int :=
  [x.monthInstant interval (k + 1)]

def Span.monthPast (x : Span) (interval : Int) (k : Nat) : Bool :=
  decide (x.horizon_end_ms.toInt < x.monthInstant interval (k + 1)) || decide (1200 ≤ k)

theorem months_turns {left : Nat} (hk : k + left = 1200)
    (h : x.months_checked interval left s = .ok s') :
    x.bounds.turns (x.monthPast interval) (x.monthOffers interval) (left + 1) k s.taken =
      some s'.taken := by
  induction left generalizing k s with
  | zero =>
    rw [Span.months_checked] at h
    obtain ⟨_, -, h⟩ := bind_eq_ok.mp h
    obtain rfl := Except.ok.inj h
    have hpast : x.monthPast interval k = true := by
      simp [Span.monthPast, show 1200 ≤ k by omega]
    rw [Bounds.turns, if_pos hpast]
  | succ left ih =>
    rw [Span.months_checked] at h
    obtain ⟨ms, hms, h⟩ := bind_eq_ok.mp h
    have hindex : (1200 : Int) - left = ((k + 1 : Nat) : Int) := by omega
    rw [hindex] at hms
    obtain ⟨hfits, rfl⟩ := month_checked_ok hms
    rw [Bounds.turns]
    by_cases hpast : x.horizon_end_ms.toInt < x.monthInstant interval (k + 1)
    · rw [if_pos hpast] at h
      obtain rfl := Except.ok.inj h
      have hpast' : x.monthPast interval k = true := by
        simp [Span.monthPast, hpast]
      rw [if_pos hpast']
    · rw [if_neg hpast] at h
      have hpast' : ¬ x.monthPast interval k = true := by
        simp [Span.monthPast, hpast, show ¬ 1200 ≤ k by omega]
      have hpush : x.bounds.pushAll (x.monthOffers interval k) s.taken = _ :=
        (Bounds.pushAll_singleton s.taken).trans (bounds_push x s hfits)
      rw [if_neg hpast', hpush]
      rcases htaken : x.push (Int64.ofInt (x.monthInstant interval (k + 1))) s with ⟨_ | _, s₁⟩
      · rw [htaken] at h
        obtain rfl := Except.ok.inj h
        rfl
      · rw [htaken] at h
        exact ih (by omega) h

end

/-! ## The wrapping sums -/

section

variable {x : Span} {s s' : Expanded} {n cursor week : Int} {step : Except Stop Int} {step' : Int64}
  {fuel : Nat} {days : List Nat}

theorem lt_day (x : Span) (h : Fits (n * 86400000)) :
    x.horizon_end_ms < Int64.ofInt n * MS_PER_DAY ↔ x.horizon_end_ms.toInt < n * 86400000 := by
  have hmul : Int64.ofInt n * MS_PER_DAY = Int64.ofInt (n * 86400000) := by
    rw [Int64.ofInt_mul]
    rfl
  rw [hmul, lt_ofInt _ h]

theorem steps_of_checked (hstep : ∀ m, step = .ok m → Int64.ofInt m = step')
    (h : x.steps_checked step fuel cursor s = .ok s') :
    x.steps step' fuel (Int64.ofInt cursor) s = some s' := by
  induction fuel generalizing cursor s with
  | zero => cases h
  | succ fuel ih =>
    rw [Span.steps_checked] at h
    obtain ⟨start, hstart, h⟩ := bind_eq_ok.mp h
    obtain ⟨hfits, rfl⟩ := fit_eq_ok.mp hstart
    rw [Span.steps, if_congr (lt_day x hfits) rfl rfl, ofInt_instant]
    by_cases hpast : x.horizon_end_ms.toInt < cursor * 86400000
    · rw [if_pos hpast] at h ⊢
      exact congrArg some (Except.ok.inj h)
    · rw [if_neg hpast] at h ⊢
      obtain ⟨ms, hms, h⟩ := bind_eq_ok.mp h
      obtain ⟨-, -, rfl⟩ := instant_checked_eq_ok.mp hms
      rcases htaken : x.push (Int64.ofInt (x.instantOf cursor)) s with ⟨_ | _, s₁⟩
      · rw [htaken] at h
        exact congrArg some (Except.ok.inj h)
      · rw [htaken] at h
        obtain ⟨m, hm, h⟩ := bind_eq_ok.mp h
        obtain ⟨next, hnext, h⟩ := bind_eq_ok.mp h
        obtain ⟨-, rfl⟩ := fit_eq_ok.mp hnext
        show x.steps step' fuel (Int64.ofInt cursor + step') s₁ = some s'
        rw [← hstep m hm, ← Int64.ofInt_add, hstep m hm]
        exact ih h

theorem weekday_mon0_of_fits (h : Fits (n + 3)) : weekday_mon0 (Int64.ofInt n) = weekdayOf n := by
  have hadd : Int64.ofInt n + 3 = Int64.ofInt (n + 3) := by
    rw [Int64.ofInt_add]
    rfl
  have hdiv := Int.tmod_add_mul_tdiv (n + 3) 7
  have hlt := Int.tmod_lt_of_pos (n + 3) (show (0 : Int) < 7 by omega)
  have hgt := Int.lt_tmod_of_pos (n + 3) (show (0 : Int) < 7 by omega)
  have hmod : (Int64.ofInt (n + 3) % 7).toInt = (n + 3).tmod 7 := by
    rw [Int64.toInt_mod, h.toInt_ofInt]
    rfl
  have hsum : (Int64.ofInt (n + 3) % 7 + 7).toInt = (n + 3).tmod 7 + 7 := by
    rw [Int64.toInt_add, hmod]
    exact Int.bmod_eq_of_le (by show _ ≤ _ + 7; omega) (by show _ + 7 < _; omega)
  unfold weekday_mon0 weekdayOf
  rw [hadd, hsum]
  omega

theorem week_of_checked {offsets : List Nat} {going : Bool}
    (h : x.week_checked days week offsets s = .ok (going, s')) :
    x.week days (Int64.ofInt week) offsets s = (going, s') := by
  induction offsets generalizing s with
  | nil => exact Except.ok.inj h
  | cons offset offsets ih =>
    rw [Span.week_checked] at h
    obtain ⟨day, hday, h⟩ := bind_eq_ok.mp h
    obtain ⟨-, rfl⟩ := fit_eq_ok.mp hday
    obtain ⟨weekday, hweekday, h⟩ := bind_eq_ok.mp h
    obtain ⟨hfits, rfl⟩ := weekday_mon0_checked_eq_ok.mp hweekday
    have hadd : Int64.ofInt week + Int64.ofNat offset = Int64.ofInt (week + offset) := by
      rw [Int64.ofInt_add]
      rfl
    rw [Span.week, hadd, weekday_mon0_of_fits hfits, ofInt_instant]
    by_cases hmem : weekdayOf (week + offset) ∈ days
    · rw [if_neg (not_not.mpr hmem)] at h ⊢
      obtain ⟨ms, hms, h⟩ := bind_eq_ok.mp h
      obtain ⟨-, -, rfl⟩ := instant_checked_eq_ok.mp hms
      rcases htaken : x.push (Int64.ofInt (x.instantOf (week + offset))) s with ⟨_ | _, s₁⟩
      · rw [htaken] at h
        exact Except.ok.inj h
      · rw [htaken] at h
        exact ih h
    · rw [if_pos hmem] at h ⊢
      exact ih h

theorem weeks_of_checked (hstep : ∀ m, step = .ok m → Int64.ofInt m = step')
    (h : x.weeks_checked days step fuel week s = .ok s') :
    x.weeks days step' fuel (Int64.ofInt week) s = some s' := by
  induction fuel generalizing week s with
  | zero => cases h
  | succ fuel ih =>
    rw [Span.weeks_checked] at h
    obtain ⟨start, hstart, h⟩ := bind_eq_ok.mp h
    obtain ⟨hfits, rfl⟩ := fit_eq_ok.mp hstart
    rw [Span.weeks, if_congr (lt_day x hfits) rfl rfl]
    by_cases hpast : x.horizon_end_ms.toInt < week * 86400000
    · rw [if_pos hpast] at h ⊢
      exact congrArg some (Except.ok.inj h)
    · rw [if_neg hpast] at h ⊢
      obtain ⟨⟨going, s₁⟩, hweek, h⟩ := bind_eq_ok.mp h
      rw [week_of_checked hweek]
      cases going with
      | false => exact congrArg some (Except.ok.inj h)
      | true =>
        obtain ⟨m, hm, h⟩ := bind_eq_ok.mp h
        obtain ⟨next, hnext, h⟩ := bind_eq_ok.mp h
        obtain ⟨-, rfl⟩ := fit_eq_ok.mp hnext
        show x.weeks days step' fuel (Int64.ofInt week + step') s₁ = some s'
        rw [← hstep m hm, ← Int64.ofInt_add, hstep m hm]
        exact ih h

theorem month_of_checked {interval : Int64} {index : Nat} {ms : Int}
    (h : x.month_checked interval.toInt index = .ok ms) :
    x.month interval (Int64.ofNat index) = Int64.ofInt ms := by
  unfold Span.month_checked at h
  dsimp only at h
  obtain ⟨months, hmonths, h⟩ := bind_eq_ok.mp h
  obtain ⟨total, htotal, h⟩ := bind_eq_ok.mp h
  obtain ⟨y, hy, h⟩ := bind_eq_ok.mp h
  obtain ⟨days, hdays, h⟩ := bind_eq_ok.mp h
  obtain ⟨-, rfl⟩ := fit_eq_ok.mp hmonths
  obtain ⟨hfits, rfl⟩ := fit_eq_ok.mp htotal
  obtain ⟨-, rfl⟩ := fit_eq_ok.mp hy
  obtain rfl := days_from_civil_checked_eq_ok hdays
  obtain ⟨-, -, rfl⟩ := instant_checked_eq_ok.mp h
  unfold Span.month
  dsimp only
  generalize civil_from_days (x.first_ms.toInt / 86400000) = c at hfits ⊢
  have hsum : Int64.ofInt (c.2.1 - 1) + Int64.ofNat index * interval =
      Int64.ofInt (c.2.1 - 1 + index * interval.toInt) := by
    rw [Int64.ofInt_add, Int64.ofInt_mul, Int64.ofInt_toInt]
    rfl
  rw [hsum, hfits.toInt_ofInt, ofInt_instant]

theorem months_of_checked {interval : Int64} {left : Nat} (hleft : left ≤ 1200)
    (h : x.months_checked interval.toInt left s = .ok s') : x.months interval left s = s' := by
  induction left generalizing s with
  | zero =>
    rw [Span.months_checked] at h
    obtain ⟨_, -, h⟩ := bind_eq_ok.mp h
    exact Except.ok.inj h
  | succ left ih =>
    rw [Span.months_checked] at h
    obtain ⟨ms, hms, h⟩ := bind_eq_ok.mp h
    have hindex : (1200 : Int) - left = ((1200 - left : Nat) : Int) := by omega
    rw [hindex] at hms
    have hfits := (month_checked_ok hms).1
    rw [Span.months, month_of_checked hms, if_congr (lt_ofInt _ hfits) rfl rfl]
    by_cases hpast : x.horizon_end_ms.toInt < ms
    · rw [if_pos hpast] at h ⊢
      exact Except.ok.inj h
    · rw [if_neg hpast] at h ⊢
      rcases htaken : x.push (Int64.ofInt ms) s with ⟨_ | _, s₁⟩
      · rw [htaken] at h
        exact Except.ok.inj h
      · rw [htaken] at h
        exact ih (by omega) h

/-- Where no result leaves the integers, an expansion gives what the wrapping sums give. -/
theorem expand_rrule_of_checked {first_ms horizon_end_ms : Int64} {rrule : List Char}
    {count_remaining : Option Int64} {max_occurrences : Nat} {out : List Int64}
    (h : expand_rrule_checked fuel first_ms rrule horizon_end_ms count_remaining max_occurrences =
      .ok out) :
    expand_rrule fuel first_ms rrule horizon_end_ms count_remaining max_occurrences = some out := by
  obtain ⟨s', hloop, rfl⟩ := map_eq_ok.mp h
  clear h
  unfold expand_rrule
  dsimp only
  generalize Rule.parse rrule = rule at hloop ⊢
  unfold Rule.expand_checked Rule.span at hloop
  dsimp only at hloop
  generalize String.ofList rule.freq = freq at hloop ⊢
  have hfit : ∀ m, fit (7 * rule.interval.toInt) = .ok m → Int64.ofInt m = 7 * rule.interval := by
    intro m hm
    obtain ⟨-, rfl⟩ := fit_eq_ok.mp hm
    rw [Int64.ofInt_mul, Int64.ofInt_toInt]
    rfl
  split at hloop
  · have hstep : ∀ m, Except.ok rule.interval.toInt = (.ok m : Except Stop Int) →
        Int64.ofInt m = rule.interval := by
      intro m hm
      obtain rfl := Except.ok.inj hm
      exact Int64.ofInt_toInt _
    exact congrArg _ (steps_of_checked hstep hloop)
  · split_ifs at hloop with hbyday
    · simp only [if_pos hbyday]
      exact congrArg _ (steps_of_checked hfit hloop)
    · simp only [if_neg hbyday]
      obtain ⟨weekday, hweekday, hloop⟩ := bind_eq_ok.mp hloop
      obtain ⟨hfits, rfl⟩ := weekday_mon0_checked_eq_ok.mp hweekday
      obtain ⟨week_start, hstart, hloop⟩ := bind_eq_ok.mp hloop
      obtain ⟨-, rfl⟩ := fit_eq_ok.mp hstart
      have hweek := weeks_of_checked hfit hloop
      rw [Int64.ofInt_sub] at hweek
      rw [weekday_mon0_of_fits hfits]
      exact congrArg _ hweek
  · exact congrArg (fun s => some s.out.reverse) (months_of_checked (le_refl _) hloop)
  · obtain rfl := Except.ok.inj hloop
    rfl

end

end Calendar
