import VynkorPlugins.Calendar.Proofs.OverflowProofs
import Mathlib.Order.Interval.Set.Infinite
import Mathlib.Data.Int.Interval

/-!
# The occurrences in a window

The sequence of a rule is a set of instants, and its COUNT is about how many of them come before one.
`occurrences` gives the instants of the sequence in a window exactly if the cap on an expansion is met
behind the window.
-/

namespace Calendar

open Checked Rust Series

/-! ## The sequence of a rule -/

/-- The instant of a month behind the start, on the day of the start or the last day of the month. -/
def monthInstantOf (start interval : Int) (k : Nat) : Int :=
  let (y, m, d) := civil_from_days (start / 86400000)
  let month := y * 12 + (m - 1) + k * interval
  (monthStart month + (min d (monthLength month) - 1)) * 86400000 + start % 86400000

/-- An instant is one of the recurrences behind the start. -/
def Recurs (start : Int) (rule : Rule) (ms : Int) : Prop :=
  let interval := rule.interval.toInt
  start < ms ∧
    match String.ofList rule.freq with
    | "DAILY" => ∃ k : Nat, ms = start + k * interval * 86400000
    | "WEEKLY" =>
      if rule.byday = [] then ∃ k : Nat, ms = start + k * (7 * interval) * 86400000
      else ∃ k : Nat, ∃ day ∈ rule.byday, day < 7 ∧
        ms = (weekStart (start / 86400000) + k * (7 * interval) + day) * 86400000 + start % 86400000
    | "MONTHLY" => ∃ k : Nat, ms = monthInstantOf start interval (k + 1)
    | _ => False

/-- The start and its recurrences. -/
def sequence (start : Int) (rule : Rule) : Set Int := {ms | ms = start ∨ Recurs start rule ms}

/-- The COUNT of a rule. -/
def countOf (rrule : List Char) : Option Int64 :=
  (rrule.splitOnP (· = ';')).findSome? fun part =>
    match splitOnce part with
    | some (key, value) =>
      if Rust.toAsciiUppercase key = ['C', 'O', 'U', 'N', 'T'] then Rust.parseI64 value else none
    | none => none

/-- An instant of the sequence, up to UNTIL and among the first COUNT ones. -/
structure Occurs (start : Int) (rule : Rule) (count : Option Int64) (ms : Int) : Prop where
  mem : ms ∈ sequence start rule
  until_le : ∀ u ∈ rule.until_ms, ms ≤ u.toInt
  count_lt : ∀ c ∈ count, (Bounds.rank (sequence start rule) ms : Int) < c.toInt

section

variable {start ms : Int} {rule : Rule}

theorem rank_start : Bounds.rank (sequence start rule) start = 0 := by
  have hnone : {b ∈ sequence start rule | b < start} = ∅ := by
    ext b
    simp only [Set.mem_ofPred_eq, Set.mem_empty_iff_false, iff_false, not_and, not_lt]
    rintro (rfl | h)
    · exact le_refl b
    · exact h.1.le
  rw [Bounds.rank, hnone, Set.ncard_empty]

/-- The start comes before its recurrences. -/
theorem rank_recurs (h : Recurs start rule ms) :
    Bounds.rank (sequence start rule) ms = Bounds.rank {ms | Recurs start rule ms} ms + 1 := by
  have hinsert : {b ∈ sequence start rule | b < ms} =
      insert start {b ∈ {ms | Recurs start rule ms} | b < ms} := by
    ext b
    simp only [sequence, Set.mem_ofPred_eq, Set.mem_insert_iff]
    constructor
    · rintro ⟨rfl | hb, hlt⟩
      · exact .inl rfl
      · exact .inr ⟨hb, hlt⟩
    · rintro (rfl | ⟨hb, hlt⟩)
      · exact ⟨.inl rfl, h.1⟩
      · exact ⟨.inr hb, hlt⟩
  have hfinite : {b ∈ {ms | Recurs start rule ms} | b < ms}.Finite := by
    refine (Set.finite_Ioo start ms).subset ?_
    rintro b ⟨hb, hlt⟩
    exact ⟨hb.1, hlt⟩
  have hnot : start ∉ {b ∈ {ms | Recurs start rule ms} | b < ms} := fun hmem =>
    absurd hmem.1.1 (lt_irrefl start)
  rw [Bounds.rank, hinsert, Set.ncard_insert_of_notMem hnot hfinite]
  rfl

end

/-! ## The turns -/

section

variable {x : Span} {cursor n : Int} {days : List Nat}

theorem instantOf_lt {a b : Int} (h : a < b) : x.instantOf a < x.instantOf b := by
  unfold Span.instantOf
  omega

theorem step_lt (cursor : Int) (hn : 1 ≤ n) {j k : Nat} (h : j < k) :
    cursor + j * n + n ≤ cursor + k * n := by
  have hmul : (j + 1 : Int) * n ≤ k * n := Int.mul_le_mul_of_nonneg_right (by omega) (by omega)
  rw [Int.add_mul, Int.one_mul] at hmul
  omega

theorem stepOffers_sorted (hn : 1 ≤ n) (k : Nat) :
    (Bounds.offered (x.stepOffers cursor n) k).Pairwise (· < ·) := by
  refine Bounds.offered_sorted (fun _ => List.pairwise_singleton _ _) (fun j k hjk a ha b hb => ?_) k
  obtain rfl := List.mem_singleton.mp ha
  obtain rfl := List.mem_singleton.mp hb
  have hlt := step_lt cursor hn hjk
  exact instantOf_lt (by omega)

theorem mem_weekOffers {week a : Int} {k : Nat} (hweek : (week + 3) % 7 = 0) (hn : n % 7 = 0) :
    a ∈ x.weekOffers days week n k ↔
      ∃ day ∈ days, day < 7 ∧ a = x.instantOf (week + k * n + day) := by
  have hweekday : ∀ day : Nat, day < 7 → weekdayOf (week + k * n + day) = day := by
    intro day hday
    obtain ⟨m, rfl⟩ : ∃ m, n = 7 * m := ⟨n / 7, by omega⟩
    have hmul : (k : Int) * (7 * m) = 7 * (k * m) := by ring
    unfold weekdayOf
    rw [hmul]
    omega
  simp only [Span.weekOffers, weekDays, List.mem_map, List.mem_filter, List.mem_range,
    decide_eq_true_eq]
  constructor
  · rintro ⟨_, ⟨⟨day, hday, rfl⟩, hmem⟩, rfl⟩
    rw [hweekday day hday] at hmem
    exact ⟨day, hmem, hday, rfl⟩
  · rintro ⟨day, hmem, hday, rfl⟩
    refine ⟨_, ⟨⟨day, hday, rfl⟩, ?_⟩, rfl⟩
    rw [hweekday day hday]
    exact hmem

theorem weekOffers_all_sorted {week : Int} (hweek : (week + 3) % 7 = 0) (hn : n % 7 = 0)
    (hpos : 1 ≤ n) (k : Nat) : (Bounds.offered (x.weekOffers days week n) k).Pairwise (· < ·) := by
  refine Bounds.offered_sorted (fun k => weekOffers_sorted x days week n k)
    (fun j k hjk a ha b hb => ?_) k
  obtain ⟨day, -, hday, rfl⟩ := (mem_weekOffers hweek hn).mp ha
  obtain ⟨day', -, -, rfl⟩ := (mem_weekOffers hweek hn).mp hb
  have hlt := step_lt week hpos hjk
  exact instantOf_lt (by omega)

theorem monthInstant_lt (hn : 1 ≤ n) {j k : Nat} (h : j < k) :
    x.monthInstant n j < x.monthInstant n k := by
  refine instantOf_lt ?_
  have hmonth : x.monthOf n j + 1 ≤ x.monthOf n k := by
    have hlt := step_lt (n := n) 0 hn h
    unfold Span.monthOf
    omega
  have hstart := monthStart_mono hmonth
  have hj := (clampedDay_bounds x (x.monthOf n j)).2
  have hk := (clampedDay_bounds x (x.monthOf n k)).1
  omega

theorem monthOffers_sorted (hn : 1 ≤ n) (k : Nat) :
    (Bounds.offered (x.monthOffers n) k).Pairwise (· < ·) := by
  refine Bounds.offered_sorted (fun _ => List.pairwise_singleton _ _) (fun j k hjk a ha b hb => ?_) k
  obtain rfl := List.mem_singleton.mp ha
  obtain rfl := List.mem_singleton.mp hb
  exact monthInstant_lt hn (by omega)

/-- The months after the first one begin behind the start, and there is no last one. -/
theorem first_le_month (hn : 1 ≤ n) (k : Nat) : x.first_ms.toInt + k ≤ x.monthInstant n k := by
  induction k with
  | zero =>
    obtain ⟨⟨-, hday⟩, hstart⟩  := first_month x n
    unfold Span.monthInstant Span.instantOf Span.clampedDay
    rw [min_eq_left hday, hstart]
    omega
  | succ k ih =>
    have hlt : x.monthInstant n k < x.monthInstant n (k + 1) := monthInstant_lt hn (Nat.lt_succ_self k)
    omega

theorem length_monthOffers (k : Nat) : (Bounds.offered (x.monthOffers n) k).length = k := by
  induction k with
  | zero => rfl
  | succ k ih =>
    rw [Bounds.offered_succ, List.length_append, ih]
    rfl

/-- Behind a turn that is past the horizon there are instants behind the horizon only. -/
theorem stepPast_all (hn : 1 ≤ n) {k : Nat} (h : x.horizon_end_ms.toInt < (cursor + k * n) * 86400000)
    {j : Nat} (hj : k ≤ j) {day : Int} (hday : cursor + j * n ≤ day) :
    x.horizon_end_ms.toInt < x.instantOf day := by
  have hmod := Int.emod_nonneg x.first_ms.toInt (show (86400000 : Int) ≠ 0 by omega)
  have hmul : (k : Int) * n ≤ j * n := Int.mul_le_mul_of_nonneg_right (by omega) (by omega)
  unfold Span.instantOf
  omega

theorem exists_stepPast (x : Span) (cursor : Int) (hn : 1 ≤ n) :
    ∃ k : Nat, x.horizon_end_ms.toInt < (cursor + k * n) * 86400000 := by
  refine ⟨(x.horizon_end_ms.toInt - cursor * 86400000 + 1).toNat, ?_⟩
  have hle : ((x.horizon_end_ms.toInt - cursor * 86400000 + 1).toNat : Int) * 1 ≤
      (x.horizon_end_ms.toInt - cursor * 86400000 + 1).toNat * n :=
    Int.mul_le_mul_of_nonneg_left hn (by omega)
  omega

end

/-! ## What an expansion gives -/

/-- What a loop is to have taken in the end. -/
def Gives (x : Span) (rule : Rule) (count : Option Int64) (s : Expanded) : Prop :=
  s.taken.out.reverse.Pairwise (· < ·) ∧ ∀ a, a ∈ s.taken.out ↔
    Recurs x.first_ms.toInt rule a ∧ a ≤ x.horizon_end_ms.toInt ∧ x.bounds.last.all (a ≤ ·) = true ∧
      Bounds.rank {ms | Recurs x.first_ms.toInt rule ms} a < x.bounds.limit (count.map Int64.toInt)

section

variable {x : Span} {rule : Rule} {n cursor : Int} {step : Except Stop Int} {count : Option Int64}
  {fuel : Nat} {s' : Expanded} {days : List Nat}

theorem gives_of_later {past : Nat → Bool} {offers : Nat → List Int}
    (hlater : ∀ a, x.first_ms.toInt < a → ((∃ k, a ∈ offers k) ↔ Recurs x.first_ms.toInt rule a))
    (hsorted : ∀ k, (Bounds.offered offers k).Pairwise (· < ·))
    (hpast : ∀ k, past k = true →
      (x.bounds.pushAll (Bounds.offered offers k) ⟨[], count.map Int64.toInt⟩).1 = false ∨
        ∀ j ≥ k, ∀ a ∈ offers j, x.bounds.upto < a)
    (hends : ∃ k, ∀ j ≥ k, ∀ a ∈ offers j, x.bounds.upto < a)
    (h : x.bounds.turns past offers fuel 0 ⟨[], count.map Int64.toInt⟩ = some s'.taken) :
    Gives x rule count s' := by
  have hset : x.bounds.later offers = {ms | Recurs x.first_ms.toInt rule ms} := by
    ext a
    constructor
    · rintro ⟨hafter, hk⟩
      exact (hlater a hafter).mp hk
    · intro ha
      have hafter : x.first_ms.toInt < a := ha.1
      exact ⟨hafter, (hlater a hafter).mpr ha⟩
  have hall := Bounds.mem_turns_iff hsorted hpast hends h
  rw [hset] at hall
  exact hall

theorem steps_gives (hn : 1 ≤ n) (hstep : ∀ m, step = .ok m → m = n)
    (hrecurs : ∀ ms, x.first_ms.toInt < ms →
      ((∃ k : Nat, ms = x.first_ms.toInt + k * n * 86400000) ↔ Recurs x.first_ms.toInt rule ms))
    (h : x.steps_checked step fuel (x.first_ms.toInt / 86400000) ⟨[], count⟩ = .ok s') :
    Gives x rule count s' := by
  have hturns := steps_turns (k := 0) hstep (by
    rw [Nat.cast_zero, Int.zero_mul, Int.add_zero]
    exact h)
  have hpast : ∀ k, x.stepPast (x.first_ms.toInt / 86400000) n k = true →
      ∀ j ≥ k, ∀ a ∈ x.stepOffers (x.first_ms.toInt / 86400000) n j, x.bounds.upto < a := by
    intro k hk j hj a ha
    obtain rfl := List.mem_singleton.mp ha
    exact stepPast_all hn (of_decide_eq_true hk) hj (le_refl _)
  refine gives_of_later (fun a ha => ?_) (stepOffers_sorted hn) (fun k hk => .inr (hpast k hk)) ?_ hturns
  · rw [← hrecurs a ha]
    refine exists_congr fun k => ?_
    have hinstant : x.instantOf (x.first_ms.toInt / 86400000 + k * n) =
        x.first_ms.toInt + k * n * 86400000 := by
      unfold Span.instantOf
      have hdiv := Int.mul_ediv_add_emod x.first_ms.toInt 86400000
      rw [Int.add_mul]
      omega
    rw [← hinstant]
    exact List.mem_singleton
  · obtain ⟨k, hk⟩ := exists_stepPast x (x.first_ms.toInt / 86400000) hn
    exact ⟨k, hpast k (decide_eq_true hk)⟩

theorem weeks_gives {week : Int} (hn : 1 ≤ n) (hseven : n % 7 = 0) (hweek : (week + 3) % 7 = 0)
    (hstep : ∀ m, step = .ok m → m = n)
    (hrecurs : ∀ ms, x.first_ms.toInt < ms →
      ((∃ k : Nat, ∃ day ∈ days, day < 7 ∧ ms = x.instantOf (week + k * n + day)) ↔
        Recurs x.first_ms.toInt rule ms))
    (h : x.weeks_checked days step fuel week ⟨[], count⟩ = .ok s') : Gives x rule count s' := by
  have hturns := weeks_turns (k := 0) hstep (by
    rw [Nat.cast_zero, Int.zero_mul, Int.add_zero]
    exact h)
  have hpast : ∀ k, x.stepPast week n k = true →
      ∀ j ≥ k, ∀ a ∈ x.weekOffers days week n j, x.bounds.upto < a := by
    intro k hk j hj a ha
    obtain ⟨day, -, -, rfl⟩ := (mem_weekOffers hweek hseven).mp ha
    exact stepPast_all hn (of_decide_eq_true hk) hj (by omega)
  refine gives_of_later (fun a ha => ?_) (weekOffers_all_sorted hweek hseven hn)
    (fun k hk => .inr (hpast k hk)) ?_ hturns
  · rw [← hrecurs a ha]
    exact exists_congr fun k => mem_weekOffers hweek hseven
  · obtain ⟨k, hk⟩ := exists_stepPast x week hn
    exact ⟨k, hpast k (decide_eq_true hk)⟩

/-- The cap is met before the months run out. -/
theorem months_gives (hn : 1 ≤ n) (hmost : x.max_occurrences < 1200)
    (hrecurs : ∀ ms, x.first_ms.toInt < ms →
      ((∃ k : Nat, ms = x.monthInstant n (k + 1)) ↔ Recurs x.first_ms.toInt rule ms))
    (h : x.months_checked n 1200 ⟨[], count⟩ = .ok s') : Gives x rule count s' := by
  have hturns := months_turns (Nat.zero_add 1200) h
  have hafter : ∀ k, x.horizon_end_ms.toInt < x.monthInstant n (k + 1) →
      ∀ j ≥ k, ∀ a ∈ x.monthOffers n j, x.bounds.upto < a := by
    intro k hk j hj a ha
    obtain rfl := List.mem_singleton.mp ha
    rcases Nat.eq_or_lt_of_le hj with rfl | hlt
    · exact hk
    · exact hk.trans (monthInstant_lt hn (by omega))
  refine gives_of_later (fun a ha => ?_) (monthOffers_sorted hn) (fun k hk => ?_) ?_ hturns
  · rw [← hrecurs a ha]
    exact exists_congr fun k => List.mem_singleton
  · rcases Bool.or_eq_true_iff.mp hk with hk | hk
    · exact .inr (hafter k (of_decide_eq_true hk))
    · by_cases hhorizon : x.horizon_end_ms.toInt < x.monthInstant n (k + 1)
      · exact .inr (hafter k hhorizon)
      · -- there are more months in the range than there may be
        have hcount : 1200 ≤ k := of_decide_eq_true hk
        have hrange : x.bounds.ranged (Bounds.offered (x.monthOffers n) k) =
            Bounds.offered (x.monthOffers n) k := by
          refine List.filter_eq_self.mpr fun a ha => decide_eq_true ?_
          obtain ⟨j, hj, haj⟩ := Bounds.mem_offered.mp ha
          obtain rfl := List.mem_singleton.mp haj
          have hfirst := first_le_month (x := x) hn (j + 1)
          have hlt : x.monthInstant n (j + 1) < x.monthInstant n (k + 1) :=
            monthInstant_lt hn (by omega)
          constructor
          · show x.first_ms.toInt < _
            omega
          · show _ ≤ x.horizon_end_ms.toInt
            omega
        have hstop : ¬ x.bounds.Going (count.map Int64.toInt) (Bounds.offered (x.monthOffers n) k) := by
          have hlen := length_monthOffers (x := x) (n := n) k
          rintro (hnil | ⟨-, -, hlt⟩)
          · rw [hrange] at hnil
            rw [hnil] at hlen
            simp only [List.length_nil] at hlen
            omega
          · rw [hrange, hlen] at hlt
            exact absurd hlt (by show ¬ k < x.max_occurrences; omega)
        refine .inl (Bool.eq_false_iff.mpr fun hgo => hstop ?_)
        exact (Bounds.pushAll_spec x.bounds _ (monthOffers_sorted hn k)).1.mp hgo
  · refine ⟨(x.horizon_end_ms.toInt - x.first_ms.toInt).toNat, hafter _ ?_⟩
    have hle := first_le_month (x := x) hn ((x.horizon_end_ms.toInt - x.first_ms.toInt).toNat + 1)
    omega

/-- A loop that ends has taken the recurrences up to its horizon, UNTIL, the count and the cap. -/
theorem expand_gives (hpos : 1 ≤ rule.interval.toInt) (hmost : x.max_occurrences < 1200)
    (h : rule.expand_checked x fuel ⟨[], count⟩ = .ok s') : Gives x rule count s' := by
  have hfit : ∀ m, fit (7 * rule.interval.toInt) = .ok m → m = 7 * rule.interval.toInt :=
    fun m hm => (fit_eq_ok.mp hm).2
  unfold Rule.expand_checked at h
  dsimp only at h
  split at h
  · -- daily
    rename_i hfreq
    refine steps_gives hpos (fun m hm => (Except.ok.inj hm).symm) (fun ms hms => ?_) h
    simp only [Recurs, hfreq]
    exact ⟨fun hk => ⟨hms, hk⟩, fun hk => hk.2⟩
  · rename_i hfreq
    split_ifs at h with hbyday
    · -- weekly from the start on
      refine steps_gives (by omega) hfit (fun ms hms => ?_) h
      simp only [Recurs, hfreq, if_pos hbyday]
      exact ⟨fun hk => ⟨hms, hk⟩, fun hk => hk.2⟩
    · -- weekly on some days
      obtain ⟨weekday, hweekday, h⟩ := bind_eq_ok.mp h
      obtain ⟨-, rfl⟩ := weekday_mon0_checked_eq_ok.mp hweekday
      obtain ⟨week_start, hstart, h⟩ := bind_eq_ok.mp h
      obtain ⟨-, rfl⟩ := fit_eq_ok.mp hstart
      refine weeks_gives (by omega) (by omega) ?_ hfit (fun ms hms => ?_) h
      · unfold weekdayOf
        omega
      · simp only [Recurs, hfreq, if_neg hbyday]
        exact ⟨fun hk => ⟨hms, hk⟩, fun hk => hk.2⟩
  · -- monthly
    rename_i hfreq
    refine months_gives hpos hmost (fun ms hms => ?_) h
    simp only [Recurs, hfreq]
    exact ⟨fun hk => ⟨hms, hk⟩, fun hk => hk.2⟩
  · -- not expanded
    rename_i hdaily hweekly hmonthly
    obtain rfl := Except.ok.inj h
    have hnone : ∀ a, ¬ Recurs x.first_ms.toInt rule a := by
      rintro a ⟨-, ha⟩
      split at ha
      · exact hdaily ‹_›
      · exact hweekly ‹_›
      · exact hmonthly ‹_›
      · exact ha
    refine ⟨List.Pairwise.nil, fun a => ?_⟩
    exact ⟨fun ha => absurd ha List.not_mem_nil, fun ha => absurd ha.1 (hnone a)⟩

end

/-! ## Windows -/

/-- The count that is left behind the start. -/
def remaining (rrule : List Char) : Option Int64 := (countOf rrule).map fun count => max (count - 1) 0

/-- The instants of a rule in a window are given in order, each once. -/
def Complete (fuel : Nat) (event : ParsedEvent) (rrule : List Char) (a b : Int64) : Prop :=
  ∃ starts, occurrences fuel event a b = some starts ∧ starts.Pairwise (· < ·) ∧
    ∀ ms, ms ∈ starts ↔
      Occurs event.start_ms.toInt (Rule.parse rrule) (countOf rrule) ms.toInt ∧ a ≤ ms ∧ ms ≤ b

/-- No instant of a window comes behind the cap, and the start is one of the rule's own instants. A COUNT
    of the least integer wraps, and there must be nothing to be counted then. -/
structure Covered (start : Int64) (rule : Rule) (count : Option Int64) (a b : Int64) : Prop where
  capped : ∀ ms : Int64, Occurs start.toInt rule count ms.toInt → a ≤ ms → ms ≤ b →
    Bounds.rank (sequence start.toInt rule) ms.toInt ≤ MAX_IMPORT_DOCS
  started : a ≤ start → start ≤ b → Occurs start.toInt rule count start.toInt
  counted : count = some Int64.minValue → ∀ ms : Int64, Recurs start.toInt rule ms.toInt → a ≤ ms →
    ms ≤ b → (∀ u ∈ rule.until_ms, ms ≤ u) →
      MAX_IMPORT_DOCS < Bounds.rank (sequence start.toInt rule) ms.toInt

section

variable {fuel : Nat} {event : ParsedEvent} {rrule : String} {a b : Int64} {rule : Rule}
  {start : Int} {count : Option Int64} {ms : Int}

theorem remaining_toInt (c : Int64) : (max (c - 1) 0).toInt =
    if c = Int64.minValue then Int64.maxValue.toInt else max (c.toInt - 1) 0 := by
  have hmax : ∀ d : Int64, (max d 0).toInt = max d.toInt 0 := by
    intro d
    have hdef : max d 0 = if d ≤ 0 then 0 else d := rfl
    rw [hdef]
    split_ifs with h
    · rw [Int64.le_iff_toInt_le] at h
      exact (max_eq_right h).symm
    · rw [Int64.le_iff_toInt_le] at h
      exact (max_eq_left (not_le.mp h).le).symm
  rw [hmax]
  split_ifs with h
  · subst h
    rfl
  · have hne : c.toInt ≠ Int64.minValue.toInt := fun heq => h (Int64.toInt_inj.mp heq)
    have hmin : Int64.minValue.toInt = -(2 : Int) ^ 63 := rfl
    have hle := c.le_toInt
    have hlt := c.toInt_lt
    have hsub : (c - 1).toInt = c.toInt - 1 := by
      rw [Int64.toInt_sub]
      have hone : (1 : Int64).toInt = 1 := rfl
      rw [hone]
      exact Int.bmod_eq_of_le (by omega) (by omega)
    rw [hsub]

/-- What the cap and the count leave of the recurrences. -/
theorem lt_limit_iff {x : Span} (hx : x.max_occurrences = MAX_IMPORT_DOCS) {rrule : List Char} {n : Nat} :
    n < x.bounds.limit ((remaining rrule).map Int64.toInt) ↔
      n + 1 ≤ MAX_IMPORT_DOCS ∧ (countOf rrule = some Int64.minValue ∨
        ∀ c ∈ countOf rrule, ((n + 1 : Nat) : Int) < c.toInt) := by
  have hmost : max x.bounds.most 1 = 500 := by
    show max x.max_occurrences 1 = 500
    rw [hx]
    rfl
  have hdocs : MAX_IMPORT_DOCS = 500 := rfl
  unfold remaining
  cases countOf rrule with
  | none =>
    show n < max x.bounds.most 1 ↔ _
    rw [hmost, hdocs]
    simp
  | some c =>
    show n < min (max (c - 1) 0).toInt.toNat (max x.bounds.most 1) ↔ _
    rw [hmost, remaining_toInt, hdocs]
    by_cases h : c = Int64.minValue
    · subst h
      have hmax : Int64.maxValue.toInt.toNat = 9223372036854775807 := rfl
      simp only [if_true, hmax, true_or, and_true]
      omega
    · rw [if_neg h]
      simp only [Option.some.injEq, h, false_or, Option.mem_def, forall_eq']
      omega

theorem occurs_recurs (h : Recurs start rule ms) : Occurs start rule count ms ↔
    (∀ u ∈ rule.until_ms, ms ≤ u.toInt) ∧
      ∀ c ∈ count, ((Bounds.rank {ms | Recurs start rule ms} ms + 1 : Nat) : Int) < c.toInt := by
  rw [← rank_recurs h]
  exact ⟨fun ho => ⟨ho.until_le, ho.count_lt⟩, fun ho => ⟨.inr h, ho.1, ho.2⟩⟩

/-- An event that starts behind the window. -/
theorem complete_of_late (fuel : Nat) (a : Int64) (rrule : String) (h : b < event.start_ms) :
    Complete fuel event rrule.toList a b ∧
      Covered event.start_ms (Rule.parse rrule.toList) (countOf rrule.toList) a b := by
  have hlate : ∀ ms : Int64, ms.toInt ∈ sequence event.start_ms.toInt (Rule.parse rrule.toList) →
      ¬ ms ≤ b := by
    intro ms hms hle
    rw [Int64.lt_iff_toInt_lt] at h
    rw [Int64.le_iff_toInt_le] at hle
    rcases hms with hms | hms
    · omega
    · have := hms.1
      omega
  constructor
  · refine ⟨[], if_pos h, List.Pairwise.nil, fun ms => ⟨fun hms => (nomatch hms), fun hms => ?_⟩⟩
    exact absurd hms.2.2 (hlate ms hms.1.mem)
  · refine ⟨fun ms hms _ hle => absurd hle (hlate ms hms.mem), fun _ hle => ?_, fun _ ms hms _ hle => ?_⟩
    · exact absurd hle (hlate _ (.inl rfl))
    · exact absurd hle (hlate ms (.inr hms))

/-- A recurrence up to the end of the window that the cap and the count let through. -/
structure Given (start : Int64) (rule : Rule) (count : Option Int64) (b ms : Int64) : Prop where
  recurs : Recurs start.toInt rule ms.toInt
  window : ms ≤ b
  until_le : ∀ u ∈ rule.until_ms, ms ≤ u
  capped : Bounds.rank {ms | Recurs start.toInt rule ms} ms.toInt + 1 ≤ MAX_IMPORT_DOCS
  count_lt : count = some Int64.minValue ∨ ∀ c ∈ count,
    ((Bounds.rank {ms | Recurs start.toInt rule ms} ms.toInt + 1 : Nat) : Int) < c.toInt

/-- What comes back for an event that starts before the end of the window. -/
theorem occurrences_spec (hrrule : event.rrule = some rrule) (hstart : ¬ b < event.start_ms)
    {out : List Int64} (hout : expand_rrule_checked fuel event.start_ms rrule.toList b
      (remaining rrule.toList) MAX_IMPORT_DOCS = .ok out) :
    ∃ starts, occurrences fuel event a b = some starts ∧ starts.Pairwise (· < ·) ∧
      ∀ ms : Int64, ms ∈ starts ↔ a ≤ ms ∧ (ms = event.start_ms ∨
        Given event.start_ms (Rule.parse rrule.toList) (countOf rrule.toList) b ms) := by
  have hexpand := expand_rrule_of_checked hout
  obtain ⟨s', hloop, rfl⟩ := map_eq_ok.mp hout
  obtain ⟨hsorted, hmem⟩ := expand_gives (interval_pos rrule.toList)
    (show MAX_IMPORT_DOCS < 1200 by decide) hloop
  have hstarts : occurrences fuel event a b = some (((if a ≤ event.start_ms ∧ event.start_ms ≤ b then
      [event.start_ms] else []) ++ s'.out.reverse).filter fun ms => a ≤ ms) := by
    unfold occurrences
    rw [if_neg hstart, hrrule]
    exact congrArg (Option.map _) hexpand
  generalize Rule.parse rrule.toList = rule at hloop hmem ⊢
  have hlater : ∀ ms : Int64, ms ∈ s'.out.reverse ↔
      Given event.start_ms rule (countOf rrule.toList) b ms := by
    intro ms
    have hms : ms ∈ s'.out.reverse ↔ ms.toInt ∈ s'.taken.out := by
      rw [List.mem_reverse]
      exact (List.mem_map_of_injective fun _ _ => Int64.toInt_inj.mp).symm
    have huntil : (rule.until_ms.map Int64.toInt).all (ms.toInt ≤ ·) = true ↔
        ∀ u ∈ rule.until_ms, ms ≤ u := by
      cases rule.until_ms with
      | none => simp
      | some u => simp [Int64.le_iff_toInt_le]
    rw [hms, hmem, lt_limit_iff rfl]
    constructor
    · rintro ⟨hrecurs, hle, hlast, hcapped, hcount⟩
      exact ⟨hrecurs, Int64.le_iff_toInt_le.mpr hle, huntil.mp hlast, hcapped, hcount⟩
    · intro h
      exact ⟨h.recurs, Int64.le_iff_toInt_le.mp h.window, huntil.mpr h.until_le, h.capped, h.count_lt⟩
  have hout : s'.out.reverse.Pairwise (· < ·) := by
    have hmap : (s'.out.reverse.map Int64.toInt).Pairwise (· < ·) := by
      rw [List.map_reverse]
      exact hsorted
    exact (List.pairwise_map.mp hmap).imp Int64.lt_iff_toInt_lt.mpr
  refine ⟨_, hstarts, ?_, fun ms => ?_⟩
  · refine List.Pairwise.filter _ (List.pairwise_append.mpr ⟨?_, hout, fun x hx y hy => ?_⟩)
    · split_ifs
      · exact List.pairwise_singleton _ _
      · exact List.Pairwise.nil
    · split_ifs at hx
      · obtain rfl := List.mem_singleton.mp hx
        exact Int64.lt_iff_toInt_lt.mpr ((hlater y).mp hy).recurs.1
      · cases hx
  · rw [List.mem_filter, List.mem_append, hlater, decide_eq_true_eq, and_comm]
    refine and_congr_right fun hle => or_congr_left ?_
    split_ifs with hwindow
    · exact List.mem_singleton
    · refine ⟨fun h => (nomatch h), ?_⟩
      rintro rfl
      exact absurd ⟨hle, Int64.not_lt.mp hstart⟩ hwindow

/-- An expansion that stays in the integers gives the instants of its rule in a window exactly if none of
    them comes behind the cap. -/
theorem occurrences_complete_iff (hrrule : event.rrule = some rrule)
    (hends : ¬ b < event.start_ms → ∃ out, expand_rrule_checked fuel event.start_ms rrule.toList b
      (remaining rrule.toList) MAX_IMPORT_DOCS = .ok out) :
    Complete fuel event rrule.toList a b ↔
      Covered event.start_ms (Rule.parse rrule.toList) (countOf rrule.toList) a b := by
  by_cases hlate : b < event.start_ms
  · obtain ⟨hcomplete, hcovered⟩ := complete_of_late fuel a rrule hlate
    exact ⟨fun _ => hcovered, fun _ => hcomplete⟩
  obtain ⟨out, hout⟩ := hends hlate
  obtain ⟨starts, hstarts, hsorted, hmem⟩ := occurrences_spec hrrule hlate hout
  have hwindow := Int64.not_lt.mp hlate
  have huntil : ∀ {ms : Int64}, (∀ u ∈ (Rule.parse rrule.toList).until_ms, ms ≤ u) ↔
      ∀ u ∈ (Rule.parse rrule.toList).until_ms, ms.toInt ≤ u.toInt :=
    forall₂_congr fun u _ => Int64.le_iff_toInt_le
  constructor
  · rintro ⟨starts', hstarts', -, hall⟩
    obtain rfl := Option.some.inj (hstarts'.symm.trans hstarts)
    have hgiven : ∀ ms : Int64, Occurs event.start_ms.toInt (Rule.parse rrule.toList)
        (countOf rrule.toList) ms.toInt ∧ a ≤ ms ∧ ms ≤ b ↔ _ := fun ms =>
      (hall ms).symm.trans (hmem ms)
    refine ⟨fun ms ho ha hb => ?_, fun ha hb => ?_, fun hcount ms hrecurs ha hb hu => ?_⟩
    · obtain ⟨-, rfl | hgiven⟩ := (hgiven ms).mp ⟨ho, ha, hb⟩
      · rw [rank_start]
        exact Nat.zero_le _
      · rw [rank_recurs hgiven.recurs]
        exact hgiven.capped
    · exact ((hgiven _).mpr ⟨ha, .inl rfl⟩).1
    · by_contra hle
      rw [rank_recurs hrecurs] at hle
      have ho := ((hgiven ms).mpr ⟨ha, .inr ⟨hrecurs, hb, hu, not_lt.mp hle, .inl hcount⟩⟩).1
      have hlt := ho.count_lt _ hcount
      have hmin : Int64.minValue.toInt = -(2 : Int) ^ 63 := rfl
      omega
  · intro h
    refine ⟨starts, hstarts, hsorted, fun ms => ?_⟩
    rw [hmem]
    constructor
    · rintro ⟨ha, rfl | hgiven⟩
      · exact ⟨h.started ha hwindow, ha, hwindow⟩
      · refine ⟨(occurs_recurs hgiven.recurs).mpr ⟨huntil.mp hgiven.until_le, ?_⟩, ha, hgiven.window⟩
        refine hgiven.count_lt.resolve_left fun hcount => ?_
        have hlt := h.counted hcount ms hgiven.recurs ha hgiven.window hgiven.until_le
        rw [rank_recurs hgiven.recurs] at hlt
        exact absurd hgiven.capped (not_le.mpr hlt)
    · rintro ⟨ho, ha, hb⟩
      refine ⟨ha, ho.mem.imp Int64.toInt_inj.mp fun hrecurs => ?_⟩
      obtain ⟨hu, hcount⟩ := (occurs_recurs hrecurs).mp ho
      have hcapped := h.capped ms ho ha hb
      rw [rank_recurs hrecurs] at hcapped
      exact ⟨hrecurs, hb, huntil.mpr hu, hcapped, .inr hcount⟩

end

/-- An event of every day at nine. -/
def dailyAtNine (start_ms : Int64) (rrule : String) : ParsedEvent where
  title := "stand-up"
  description := ""
  start_ms := start_ms
  end_ms := none
  all_day := false
  remind_before_ms := none
  uid := "standup@team"
  rrule := some rrule

theorem exists_of_toOption {ε α : Type} {m : Except ε α} (h : m.toOption.isSome = true) :
    ∃ a, m = .ok a := by
  cases m with
  | error e => cases h
  | ok a => exact ⟨a, rfl⟩

theorem occurrences_complete_iff_three :
    Complete 100 (dailyAtNine 1788253200000 "FREQ=DAILY;COUNT=3") "FREQ=DAILY;COUNT=3".toList
      1788253200000 1789000000000 ↔
      Covered 1788253200000 (Rule.parse "FREQ=DAILY;COUNT=3".toList)
        (countOf "FREQ=DAILY;COUNT=3".toList) 1788253200000 1789000000000 :=
  occurrences_complete_iff
    (show (dailyAtNine 1788253200000 "FREQ=DAILY;COUNT=3").rrule = some "FREQ=DAILY;COUNT=3" from rfl)
    fun _ => exists_of_toOption (by decide)

/-- An event of every day since 2020 does not occur on a day of 2026. -/
theorem old_event_not_listed :
    (∃ out, expand_rrule_checked 600 1577869200000 "FREQ=DAILY".toList 1788339600000
      (remaining "FREQ=DAILY".toList) MAX_IMPORT_DOCS = .ok out) ∧
      Occurs (1577869200000 : Int64).toInt (Rule.parse "FREQ=DAILY".toList)
        (countOf "FREQ=DAILY".toList) (1788339600000 : Int64).toInt ∧
      ¬ Complete 600 (dailyAtNine 1577869200000 "FREQ=DAILY") "FREQ=DAILY".toList
        1788339600000 1788339600000 := by
  have hoccurs : Occurs (1577869200000 : Int64).toInt (Rule.parse "FREQ=DAILY".toList)
      (countOf "FREQ=DAILY".toList) (1788339600000 : Int64).toInt := by
    have hfreq : String.ofList (Rule.parse "FREQ=DAILY".toList).freq = "DAILY" := by decide +kernel
    have hinterval : (Rule.parse "FREQ=DAILY".toList).interval.toInt = 1 := by decide +kernel
    have huntil : (Rule.parse "FREQ=DAILY".toList).until_ms = none := by decide +kernel
    have hcount : countOf "FREQ=DAILY".toList = none := by decide +kernel
    refine ⟨.inr ⟨by decide, ?_⟩, fun u hu => ?_, fun c hc => ?_⟩
    · simp only [hfreq, hinterval]
      exact ⟨2436, by decide⟩
    · rw [huntil] at hu
      cases hu
    · rw [hcount] at hc
      cases hc
  refine ⟨exists_of_toOption (by decide +kernel), hoccurs, ?_⟩
  rintro ⟨starts, hstarts, -, hall⟩
  have hnone : occurrences 600 (dailyAtNine 1577869200000 "FREQ=DAILY") 1788339600000 1788339600000 =
      some [] := by decide +kernel
  obtain rfl := Option.some.inj (hstarts.symm.trans hnone)
  have hmem := (hall 1788339600000).mpr ⟨hoccurs, Int64.le_refl _, Int64.le_refl _⟩
  cases hmem

end Calendar
