import Mathlib
import VynkorPlugins.Base.Text
import VynkorPlugins.Calendar.Proofs.RecurrenceProofs

/-!
# Dates and days

The dates of the calendar are ordered as their days are, and each day has one date. With 64 bits this is
so for the days that are counted from the first era on without an overflow. A timestamp is written to
the second, and read back from there.
-/

namespace Calendar

open Checked Rust

/-! ## The calendar -/

/-- A date of the calendar. -/
structure Date where
  year : Int
  month : Int
  day : Int
  valid : CivilDate year month day

namespace Date

/-- A date is told by its year, its month and its day, in this order. -/
def key (x : Date) : Int ×ₗ Int ×ₗ Int := toLex (x.year, toLex (x.month, x.day))

theorem key_injective : Function.Injective key := by
  rintro ⟨y, m, d, _⟩ ⟨y', m', d', _⟩ h
  obtain ⟨rfl, hrest⟩ := Prod.mk.inj (toLex.injective h)
  obtain ⟨rfl, rfl⟩ := Prod.mk.inj (toLex.injective hrest)
  rfl

instance : LinearOrder Date := LinearOrder.lift' key key_injective

def days (x : Date) : Int := days_from_civil x.year x.month x.day

/-- The month of a date, counted from the year 0 on. -/
def index (x : Date) : Int := x.year * 12 + (x.month - 1)

variable {x y : Date}

theorem days_eq (x : Date) : x.days = monthStart x.index + (x.day - 1) :=
  days_from_civil_monthStart x.day ⟨x.valid.month_pos, x.valid.month_le⟩

theorem day_le (x : Date) : x.day ≤ monthLength x.index := by
  have hle := x.valid.day_le
  rw [days_in_month_monthLength ⟨x.valid.month_pos, x.valid.month_le⟩] at hle
  exact hle

/-- An earlier date is in an earlier month, or it is an earlier day of the same one. -/
theorem lt_cases (h : x < y) : x.index < y.index ∨ x.index = y.index ∧ x.day < y.day := by
  have hx := x.valid.month_le
  have hy := y.valid.month_pos
  unfold index
  rcases Prod.Lex.lt_iff.mp (show x.key < y.key from h) with hyear | ⟨hyear, hrest⟩
  · left
    have hlt : x.year < y.year := hyear
    omega
  · have hsame : x.year = y.year := hyear
    rcases Prod.Lex.lt_iff.mp hrest with hmonth | ⟨hmonth, hday⟩
    · left
      have hlt : x.month < y.month := hmonth
      omega
    · right
      have hmonth' : x.month = y.month := hmonth
      exact ⟨by rw [hsame, hmonth'], hday⟩

theorem strictMono_days : StrictMono days := by
  intro x y h
  rw [days_eq, days_eq]
  have hx := x.day_le
  have hy := y.valid.day_pos
  rcases lt_cases h with hlt | ⟨hsame, hday⟩
  · -- the month of the earlier date is over
    have hnext : monthStart (x.index + 1) ≤ monthStart y.index := monthStart_mono (by omega)
    rw [monthStart_succ] at hnext
    omega
  · rw [hsame]
    omega

def ofDays (z : Int) : Date where
  year := (civil_from_days z).1
  month := (civil_from_days z).2.1
  day := (civil_from_days z).2.2
  valid := (civil_from_days_spec z).1

theorem days_ofDays (z : Int) : (ofDays z).days = z := (civil_from_days_spec z).2

/-- The dates and the days are one order. -/
def daysIso : Date ≃o Int where
  toFun := days
  invFun := ofDays
  left_inv x := strictMono_days.injective (days_ofDays x.days)
  right_inv := days_ofDays
  map_rel_iff' := strictMono_days.le_iff_le

theorem ofDays_days (x : Date) : ofDays x.days = x := daysIso.symm_apply_apply x

end Date

section

variable {y m d z : Int}

/-- The date of the day of a date. -/
theorem civil_from_days_of_civil (h : CivilDate y m d) :
    civil_from_days (days_from_civil y m d) = (y, m, d) := by
  have hdate := Date.ofDays_days ⟨y, m, d, h⟩
  have hyear := congrArg Date.year hdate
  have hmonth := congrArg Date.month hdate
  have hday := congrArg Date.day hdate
  exact Prod.ext hyear (Prod.ext hmonth hday)

theorem days_from_civil_lt_iff {y' m' d' : Int} (h : CivilDate y m d) (h' : CivilDate y' m' d') :
    days_from_civil y m d < days_from_civil y' m' d' ↔
      toLex (y, toLex (m, d)) < toLex (y', toLex (m', d')) :=
  Date.strictMono_days.lt_iff_lt (a := ⟨y, m, d, h⟩) (b := ⟨y', m', d', h'⟩)

/-! ## 64 bits -/

/-- The day fits, and so does its distance from the first day of the first era. -/
def DayFits (z : Int) : Prop := Fits z ∧ Fits (z + 719468)

theorem days_from_civil_checked_of_fits (hm : 1 ≤ m ∧ m ≤ 12) (hd : 1 ≤ d ∧ d ≤ 31)
    (h : DayFits (days_from_civil y m d)) :
    days_from_civil_checked y m d = .ok (days_from_civil y m d) := by
  have hsome : ∃ days, days_from_civil_checked y m d = .ok days := by
    rw [days_from_civil_eq d hm.1] at h
    unfold DayFits Fits at h
    unfold days_from_civil_checked
    dsimp only at h
    have hstep : (if m ≤ 2 then y - 1 else y) = y ∨ (if m ≤ 2 then y - 1 else y) = y - 1 := by
      split_ifs
      · exact .inr rfl
      · exact .inl rfl
    generalize (if m ≤ 2 then y - 1 else y) = y' at h hstep
    have hmp : 0 ≤ (if 2 < m then m - 3 else m + 9) ∧ (if 2 < m then m - 3 else m + 9) ≤ 11 := by
      split_ifs <;> omega
    generalize (if 2 < m then m - 3 else m + 9) = mp at h hmp
    have hyoe : y' - y' / 400 * 400 = y' % 400 := by omega
    have hrest : 0 ≤ y' % 400 ∧ y' % 400 < 400 := by omega
    -- what is counted in an era is less than the days of an era
    have hera : -(2 : Int) ^ 63 + 573000 ≤ y' / 400 * 146097 ∧ y' / 400 * 146097 < 2 ^ 63 := by omega
    refine bind_fit (by unfold Fits; omega) ?_
    have hdividend : Fits (if 0 ≤ y' then y' else y' - 399) := by
      unfold Fits
      split_ifs <;> omega
    refine bind_fit hdividend ?_
    have hdiv : (if 0 ≤ y' then y' else y' - 399).tdiv 400 = y' / 400 :=
      tdiv_era y' (show (0 : Int) < 400 by omega)
    dsimp only
    rw [hdiv]
    refine bind_fit (by unfold Fits; omega) (bind_fit (by unfold Fits; omega) ?_)
    rw [hyoe, Int.tdiv_eq_ediv_of_nonneg hrest.1, Int.tdiv_eq_ediv_of_nonneg hrest.1,
      Int.tdiv_eq_ediv_of_nonneg (show 0 ≤ 153 * mp + 2 by omega)]
    refine bind_fit (by unfold Fits; omega) (bind_fit (by unfold Fits; omega) ?_)
    exact ⟨_, fit_of_fits (by unfold Fits; omega)⟩
  obtain ⟨days, hdays⟩ := hsome
  rw [hdays, days_from_civil_checked_eq_ok hdays]

/-- The day of a date is computed if it can be counted from the first era on. -/
theorem days_from_civil_checked_eq_ok_iff (h : CivilDate y m d) :
    days_from_civil_checked y m d = .ok z ↔ DayFits z ∧ z = days_from_civil y m d := by
  have hle := (days_in_month_bounds y m).2
  constructor
  · intro hz
    have hday := days_from_civil_checked_eq_ok hz
    refine ⟨?_, hday⟩
    unfold days_from_civil_checked at hz
    obtain ⟨y', -, hz⟩ := bind_eq_ok.mp hz
    obtain ⟨dividend, -, hz⟩ := bind_eq_ok.mp hz
    obtain ⟨years, -, hz⟩ := bind_eq_ok.mp hz
    obtain ⟨yoe, -, hz⟩ := bind_eq_ok.mp hz
    obtain ⟨start, -, hz⟩ := bind_eq_ok.mp hz
    obtain ⟨sum, hsum, hz⟩ := bind_eq_ok.mp hz
    obtain ⟨hsum', rfl⟩ := fit_eq_ok.mp hsum
    obtain ⟨hfits, rfl⟩ := fit_eq_ok.mp hz
    refine ⟨hfits, ?_⟩
    rw [sub_add_cancel]
    exact hsum'
  · rintro ⟨hfits, rfl⟩
    exact days_from_civil_checked_of_fits ⟨h.month_pos, h.month_le⟩
      ⟨h.day_pos, h.day_le.trans hle⟩ hfits

theorem civil_from_days_checked_eq_ok {x : Int × Int × Int} (h : civil_from_days_checked z = .ok x) :
    Fits (z + 719468) ∧ x = civil_from_days z := by
  unfold civil_from_days_checked at h
  obtain ⟨z', hz', h⟩ := bind_eq_ok.mp h
  obtain ⟨dividend, hdividend, h⟩ := bind_eq_ok.mp h
  obtain ⟨start, hstart, h⟩ := bind_eq_ok.mp h
  obtain ⟨doe, hdoe, h⟩ := bind_eq_ok.mp h
  obtain ⟨years, hyears, h⟩ := bind_eq_ok.mp h
  obtain ⟨y', hy', h⟩ := bind_eq_ok.mp h
  obtain ⟨y, hy, h⟩ := bind_eq_ok.mp h
  obtain ⟨hfits, rfl⟩ := fit_eq_ok.mp hz'
  obtain ⟨-, rfl⟩ := fit_eq_ok.mp hdividend
  obtain ⟨-, rfl⟩ := fit_eq_ok.mp hstart
  obtain ⟨-, rfl⟩ := fit_eq_ok.mp hdoe
  obtain ⟨-, rfl⟩ := fit_eq_ok.mp hyears
  obtain ⟨-, rfl⟩ := fit_eq_ok.mp hy'
  obtain ⟨-, rfl⟩ := fit_eq_ok.mp hy
  exact ⟨hfits, (Except.ok.inj h).symm⟩

theorem civil_from_days_checked_of_fits (h : DayFits z) :
    civil_from_days_checked z = .ok (civil_from_days z) := by
  have hsome : ∃ date, civil_from_days_checked z = .ok date := by
    obtain ⟨hz, hfits⟩ := h
    unfold Fits at hz hfits
    unfold civil_from_days_checked
    refine bind_fit hfits ?_
    have hlo : -(2 : Int) ^ 63 + 719468 ≤ z + 719468 := by omega
    generalize z + 719468 = z' at hfits hlo
    have hdiv : (if 0 ≤ z' then z' else z' - 146096).tdiv 146097 = z' / 146097 :=
      tdiv_era z' (show (0 : Int) < 146097 by omega)
    have hdividend : Fits (if 0 ≤ z' then z' else z' - 146096) := by
      unfold Fits
      split_ifs <;> omega
    refine bind_fit hdividend ?_
    dsimp only
    rw [hdiv]
    have hera : -(2 : Int) ^ 50 ≤ z' / 146097 ∧ z' / 146097 ≤ 2 ^ 50 := by omega
    refine bind_fit (by unfold Fits; omega) (bind_fit (by unfold Fits; omega) ?_)
    have hdoe : 0 ≤ z' - z' / 146097 * 146097 ∧ z' - z' / 146097 * 146097 < 146097 := by omega
    generalize z' - z' / 146097 * 146097 = doe at hdoe
    generalize z' / 146097 = era at hera
    have hnum : 0 ≤ doe - doe / 1460 + doe / 36524 - doe / 146096 := by omega
    rw [Int.tdiv_eq_ediv_of_nonneg hdoe.1, Int.tdiv_eq_ediv_of_nonneg hdoe.1,
      Int.tdiv_eq_ediv_of_nonneg hdoe.1, Int.tdiv_eq_ediv_of_nonneg hnum]
    obtain ⟨hyoe, -⟩ := day_of_era_bounds hdoe rfl
    generalize (doe - doe / 1460 + doe / 36524 - doe / 146096) / 365 = yoe at hyoe
    refine bind_fit (by unfold Fits; omega) (bind_fit (by unfold Fits; omega) ?_)
    have hyear : Fits (if (if (5 * (doe - (365 * yoe + yoe.tdiv 4 - yoe.tdiv 100)) + 2).tdiv 153 < 10 then
        (5 * (doe - (365 * yoe + yoe.tdiv 4 - yoe.tdiv 100)) + 2).tdiv 153 + 3
      else (5 * (doe - (365 * yoe + yoe.tdiv 4 - yoe.tdiv 100)) + 2).tdiv 153 - 9) ≤ 2 then
        yoe + era * 400 + 1 else yoe + era * 400) := by
      unfold Fits
      split_ifs <;> omega
    exact bind_fit hyear ⟨_, rfl⟩
  obtain ⟨date, hdate⟩ := hsome
  rw [hdate, (civil_from_days_checked_eq_ok hdate).2]

end

/-! ## Timestamps -/

/-- Digits of a width that spell a number. -/
structure Spells (digits : List Char) (width : Nat) (n : Int) : Prop where
  length : digits.length = width
  digit : ∀ c ∈ digits, c.isDigit = true
  value : digitsNat digits = n

theorem digitsNat_replicate_zero (k : Nat) (digits : List Char) :
    digitsNat (List.replicate k '0' ++ digits) = digitsNat digits := by
  induction k with
  | zero => rfl
  | succ k ih =>
    rw [List.replicate_succ, List.cons_append]
    exact ih

/-- A number is padded to digits that spell it. -/
theorem spells_pad {width : Nat} {n : Int} (hwidth : 0 < width) (hn : 0 ≤ n ∧ n < 10 ^ width) :
    Spells (pad width n) width n := by
  obtain ⟨k, rfl⟩ := Int.eq_ofNat_of_zero_le hn.1
  have hlt : k < 10 ^ width := by exact_mod_cast hn.2
  have hlength : (Nat.toDigits 10 k).length ≤ width := (Nat.length_toDigits_le_iff (by omega) hwidth).mpr hlt
  have hpad : pad width k = List.replicate (width - (Nat.toDigits 10 k).length) '0' ++ Nat.toDigits 10 k := by
    unfold pad padNat
    rw [if_neg (by omega), Int.natAbs_natCast]
  rw [hpad]
  refine ⟨?_, ?_, ?_⟩
  · rw [List.length_append, List.length_replicate]
    omega
  · intro c hc
    rcases List.mem_append.mp hc with hzero | hdigit
    · rw [(List.mem_replicate.mp hzero).2]
      rfl
    · exact List.all_eq_true.mp (all_isDigit_toDigits k) c hdigit
  · rw [digitsNat_replicate_zero, digitsNat_toDigits]

theorem Spells.filter {digits : List Char} {width : Nat} {n : Int} (h : Spells digits width n) :
    digits.filter Char.isDigit = digits :=
  List.filter_eq_self.mpr h.digit

/-- A number is read where it stands. -/
theorem num_append {before digits : List Char} {start width : Nat} {n : Int} (after : List Char)
    (hstart : before.length = start) (h : Spells digits width n) :
    num (before ++ (digits ++ after)) start width = n := by
  unfold num
  rw [List.drop_left' hstart, List.take_left' h.length]
  exact h.value

/-- The instant of the last second that has begun. -/
def toSecond (ms : Int64) : Int64 := Int64.ofInt (ms.toInt / 1000 * 1000)

/-- The year of an instant. -/
def yearOf (ms : Int64) : Int := (civil_from_days (ms.toInt / 86400000)).1

/-- What a timestamp of six numbers is read as. -/
theorem parse_dt_spelled {ys ms ds hs mins secs : List Char} {y m d hour minute second : Int}
    (hy : Spells ys 4 y) (hm : Spells ms 2 m) (hd : Spells ds 2 d) (hhour : Spells hs 2 hour)
    (hminute : Spells mins 2 minute) (hsecond : Spells secs 2 second) (hdate : CivilDate y m d)
    (htime : hour ≤ 23 ∧ minute ≤ 59 ∧ second ≤ 60) :
    parse_dt (ys ++ ms ++ ds ++ 'T' :: hs ++ mins ++ secs ++ ['Z']) =
      .ok (instant y m d hour minute second, false) := by
  have hdigits : (ys ++ ms ++ ds ++ 'T' :: hs ++ mins ++ secs ++ ['Z']).filter Char.isDigit =
      ys ++ ms ++ ds ++ hs ++ mins ++ secs := by
    have hT : ('T' :: hs).filter Char.isDigit = hs := by
      rw [List.filter_cons_of_neg (by decide), hhour.filter]
    have hZ : ['Z'].filter Char.isDigit = [] := rfl
    simp only [List.filter_append, hy.filter, hm.filter, hd.filter, hT, hminute.filter, hsecond.filter, hZ,
      List.append_nil]
  have hlength : (ys ++ ms ++ ds ++ hs ++ mins ++ secs).length = 14 := by
    simp only [List.length_append, hy.length, hm.length, hd.length, hhour.length, hminute.length,
      hsecond.length]
  have hyear : num (ys ++ ms ++ ds ++ hs ++ mins ++ secs) 0 4 = y := by
    have happ := num_append (ms ++ ds ++ hs ++ mins ++ secs) List.length_nil hy
    simpa only [List.append_assoc, List.nil_append] using happ
  have hmonth : num (ys ++ ms ++ ds ++ hs ++ mins ++ secs) 4 2 = m := by
    have happ := num_append (ds ++ hs ++ mins ++ secs) hy.length hm
    simpa only [List.append_assoc] using happ
  have hday : num (ys ++ ms ++ ds ++ hs ++ mins ++ secs) 6 2 = d := by
    have hstart : (ys ++ ms).length = 6 := by rw [List.length_append, hy.length, hm.length]
    have happ := num_append (hs ++ mins ++ secs) hstart hd
    simpa only [List.append_assoc] using happ
  have hhours : timePart (ys ++ ms ++ ds ++ hs ++ mins ++ secs) 8 = hour := by
    have hstart : (ys ++ ms ++ ds).length = 8 := by
      simp only [List.length_append, hy.length, hm.length, hd.length]
    have happ := num_append (mins ++ secs) hstart hhour
    rw [timePart, if_pos (by omega)]
    simpa only [List.append_assoc] using happ
  have hminutes : timePart (ys ++ ms ++ ds ++ hs ++ mins ++ secs) 10 = minute := by
    have hstart : (ys ++ ms ++ ds ++ hs).length = 10 := by
      simp only [List.length_append, hy.length, hm.length, hd.length, hhour.length]
    have happ := num_append secs hstart hminute
    rw [timePart, if_pos (by omega)]
    simpa only [List.append_assoc] using happ
  have hseconds : timePart (ys ++ ms ++ ds ++ hs ++ mins ++ secs) 12 = second := by
    have hstart : (ys ++ ms ++ ds ++ hs ++ mins).length = 12 := by
      simp only [List.length_append, hy.length, hm.length, hd.length, hhour.length, hminute.length]
    have happ := num_append [] hstart hsecond
    rw [timePart, if_pos (by omega)]
    simpa only [List.append_assoc, List.append_nil] using happ
  have hmark : 'T' ∈ ys ++ ms ++ ds ++ 'T' :: hs ++ mins ++ secs ++ ['Z'] := by simp
  have hmonth_pos := hdate.month_pos
  have hmonth_le := hdate.month_le
  have hday_pos := hdate.day_pos
  have hday_le := hdate.day_le
  unfold parse_dt
  rw [hdigits]
  dsimp only
  rw [hlength, hyear, hmonth, hday, hhours, hminutes, hseconds, if_neg (by omega), if_neg (by omega),
    if_neg (not_not.mpr hmark), if_neg (by omega)]

/-- A timestamp is written to the second. -/
theorem parse_fmt_dt {ms : Int64} (hyear : 0 ≤ yearOf ms ∧ yearOf ms ≤ 9999) :
    parse_dt (fmt_dt ms false) = .ok (toSecond ms, false) := by
  obtain ⟨hdate, hdays⟩ := civil_from_days_spec (ms.toInt / 86400000)
  unfold yearOf at hyear
  unfold fmt_dt
  dsimp only
  generalize civil_from_days (ms.toInt / 86400000) = date at hdate hdays hyear
  obtain ⟨y, m, d⟩ := date
  dsimp only at hdate hdays hyear ⊢
  have hmonth := hdate.month_pos
  have hmonth_le := hdate.month_le
  have hday := hdate.day_pos
  have hday_le := hdate.day_le.trans (days_in_month_bounds y m).2
  rw [if_neg Bool.false_ne_true]
  have hrem : 0 ≤ ms.toInt % 86400000 ∧ ms.toInt % 86400000 < 86400000 := by omega
  rw [parse_dt_spelled (spells_pad (by omega) (by omega)) (spells_pad (by omega) (by omega))
    (spells_pad (by omega) (by omega)) (spells_pad (by omega) (by omega))
    (spells_pad (by omega) (by omega)) (spells_pad (by omega) (by omega)) hdate (by omega)]
  unfold instant toSecond
  rw [hdays]
  have htime : ms.toInt / 86400000 * 86400000 + ms.toInt % 86400000 / 3600000 * 3600000 +
      ms.toInt % 86400000 % 3600000 / 60000 * 60000 + ms.toInt % 86400000 % 60000 / 1000 * 1000 =
      ms.toInt / 1000 * 1000 := by omega
  rw [htime]

/-! ## The law -/

/-- The days of all instants are counted. -/
theorem dayFits_of_instant (ms : Int64) : DayFits (ms.toInt / 86400000) := by
  have hlo := ms.le_toInt
  have hhi := ms.toInt_lt
  unfold DayFits Fits
  omega

/-- The years whose days are all counted. -/
theorem dayFits_of_year {y m d : Int} (h : CivilDate y m d)
    (hy : -25252734927764584 ≤ y ∧ y ≤ 25252734927766553) : DayFits (days_from_civil y m d) := by
  have hday := h.day_pos
  have hday_le := h.day_le
  have hmonth := h.month_pos
  have hmonth_le := h.month_le
  rw [days_in_month_monthLength ⟨hmonth, hmonth_le⟩] at hday_le
  rw [days_from_civil_monthStart d ⟨hmonth, hmonth_le⟩]
  have hlo : monthStart (-25252734927764584 * 12) ≤ monthStart (y * 12 + (m - 1)) :=
    monthStart_mono (by omega)
  have hhi : monthStart (y * 12 + (m - 1) + 1) ≤ monthStart (25252734927766554 * 12) :=
    monthStart_mono (by omega)
  rw [monthStart_succ] at hhi
  have hfirst : monthStart (-25252734927764584 * 12) = -9223372036854775600 := by decide
  have hlast : monthStart (25252734927766554 * 12) = 9223372036854056072 := by decide
  unfold DayFits Fits
  omega

theorem weekday_succ {z : Int} (h : Fits z) (hnext : Fits (z + 4)) :
    ∃ w < 7, weekday_mon0_checked z = .ok w ∧ weekday_mon0_checked (z + 1) = .ok ((w + 1) % 7) := by
  have hfits : Fits (z + 3) := by
    unfold Fits at *
    omega
  have hfits' : Fits (z + 1 + 3) := by
    rw [add_assoc]
    exact hnext
  have hsucc : (weekdayOf z + 1) % 7 = weekdayOf (z + 1) := by
    unfold weekdayOf
    omega
  refine ⟨weekdayOf z, weekdayOf_lt z, weekday_mon0_checked_eq_ok.mpr ⟨hfits, rfl⟩, ?_⟩
  exact weekday_mon0_checked_eq_ok.mpr ⟨hfits', hsucc⟩

/-- The conversions are inverse to each other for the days that are counted, which the days of all
    instants are, and they keep the order. A date comes back if and only if its day is counted. The
    weekdays follow on each other, and a timestamp is read back to the second. -/
theorem civil_dates_inverse_and_ordered :
    (∀ z, DayFits z → ∃ y m d, civil_from_days_checked z = .ok (y, m, d) ∧ CivilDate y m d ∧
      days_from_civil_checked y m d = .ok z) ∧
    (∀ ms : Int64, DayFits (ms.toInt / 86400000)) ∧
    (∀ y m d, CivilDate y m d →
      ((days_from_civil_checked y m d >>= civil_from_days_checked) = .ok (y, m, d) ↔
        DayFits (days_from_civil y m d))) ∧
    (∀ y m d, CivilDate y m d → -25252734927764584 ≤ y → y ≤ 25252734927766553 →
      DayFits (days_from_civil y m d)) ∧
    (∀ y m d y' m' d' z z', CivilDate y m d → CivilDate y' m' d' →
      days_from_civil_checked y m d = .ok z → days_from_civil_checked y' m' d' = .ok z' →
        (z < z' ↔ toLex (y, toLex (m, d)) < toLex (y', toLex (m', d')))) ∧
    (∀ z, Fits z → Fits (z + 4) → ∃ w < 7, weekday_mon0_checked z = .ok w ∧
      weekday_mon0_checked (z + 1) = .ok ((w + 1) % 7)) ∧
    ∀ ms : Int64, 0 ≤ yearOf ms → yearOf ms ≤ 9999 →
      parse_dt (fmt_dt ms false) = .ok (toSecond ms, false) := by
  refine ⟨fun z hz => ?_, dayFits_of_instant, fun y m d hdate => ?_, fun y m d hdate hlo hhi => ?_,
    fun y m d y' m' d' z z' hdate hdate' hz hz' => ?_, fun z => weekday_succ, fun ms hlo hhi => ?_⟩
  · have hcivil := civil_from_days_checked_of_fits hz
    obtain ⟨hdate, hday⟩ := civil_from_days_spec z
    generalize civil_from_days z = date at hcivil hdate hday
    obtain ⟨y, m, d⟩ := date
    exact ⟨y, m, d, hcivil, hdate, (days_from_civil_checked_eq_ok_iff hdate).mpr ⟨hz, hday.symm⟩⟩
  · constructor
    · intro h
      obtain ⟨z, hz, -⟩ := bind_eq_ok.mp h
      obtain ⟨hfits, rfl⟩ := (days_from_civil_checked_eq_ok_iff hdate).mp hz
      exact hfits
    · intro hfits
      refine bind_eq_ok.mpr ⟨_, (days_from_civil_checked_eq_ok_iff hdate).mpr ⟨hfits, rfl⟩, ?_⟩
      rw [civil_from_days_checked_of_fits hfits, civil_from_days_of_civil hdate]
  · exact dayFits_of_year hdate ⟨hlo, hhi⟩
  · rw [days_from_civil_checked_eq_ok hz, days_from_civil_checked_eq_ok hz']
    exact days_from_civil_lt_iff hdate hdate'
  · exact parse_fmt_dt ⟨hlo, hhi⟩

/-- A leap day, and the last instant before it. -/
theorem civil_dates_inverse_and_ordered_sample :
    (days_from_civil_checked 2000 2 29 >>= civil_from_days_checked) = .ok (2000, 2, 29) ∧
      parse_dt (fmt_dt 951782399999 false) = .ok (951782399000, false) := by
  obtain ⟨-, -, hback, hcounted, -, -, htext⟩ := civil_dates_inverse_and_ordered
  have hdate : CivilDate 2000 2 29 := ⟨by decide, by decide, by decide, by decide⟩
  have hyear : yearOf 951782399999 = 2000 := by decide
  refine ⟨(hback _ _ _ hdate).mpr (hcounted _ _ _ hdate (by omega) (by omega)), ?_⟩
  exact htext 951782399999 (by omega) (by omega)

/-- The last year of an `i64` overflows where that is checked. Where the integers wrap, another date comes
    back. -/
theorem last_year_overflows :
    (¬ ∀ y m d, Fits y → CivilDate y m d →
      (days_from_civil_checked y m d >>= civil_from_days_checked) = .ok (y, m, d)) ∧
    ¬ ∀ y m d, Fits y → CivilDate y m d →
      civil_from_days (wrapI64 (days_from_civil y m d)) = (y, m, d) := by
  have hfits : Fits (2 ^ 63 - 1) := by decide
  have hdate : CivilDate (2 ^ 63 - 1) 1 1 := ⟨by decide, by decide, by decide, by decide⟩
  constructor
  · intro h
    have hsame := h _ _ _ hfits hdate
    revert hsame
    decide
  · intro h
    have hsame := h _ _ _ hfits hdate
    revert hsame
    decide

end Calendar
