import VynkorPlugins.Base.Selection
import Mathlib.Data.Set.Card
import Mathlib.Tactic.Linarith

/-!
# A series that is cut off

The values of an increasing series are offered one after another. Those of a range are taken, as long
as they do not pass a last value and as many as there may be. What has been taken in the end is known
from the series as a set: a value of the range is taken if few enough values of the set come before it.
-/

namespace Series

variable {α : Type*} [LinearOrder α]

/-- What may be taken: the values after one and up to another one, until a value passes the last one, and
    as many as there may be in the output. -/
structure Bounds (α : Type*) where
  after : α
  upto : α
  last : Option α
  most : Nat

/-- What has been taken, the latest first, and how many may still follow. -/
structure Taken (α : Type*) where
  out : List α
  left : Option Int

namespace Bounds

/-- A value is offered; whether the series goes on. -/
def push (x : Bounds α) (a : α) (s : Taken α) : Bool × Taken α :=
  if a ≤ x.after ∨ x.upto < a then (true, s)
  else if x.last.any (· < a) then (false, s)
  else if s.left.any (· ≤ 0) then (false, s)
  else (decide (s.out.length + 1 < x.most), { out := a :: s.out, left := s.left.map (· - 1) })

def pushAll (x : Bounds α) : List α → Taken α → Bool × Taken α
  | [], s => (true, s)
  | a :: as, s =>
    match x.push a s with
    | (true, s) => x.pushAll as s
    | (false, s) => (false, s)

theorem pushAll_append (x : Bounds α) (P Q : List α) (s : Taken α) :
    x.pushAll (P ++ Q) s =
      if (x.pushAll P s).1 then x.pushAll Q (x.pushAll P s).2 else x.pushAll P s := by
  induction P generalizing s with
  | nil => rfl
  | cons a P ih =>
    rw [List.cons_append, pushAll, pushAll]
    rcases hpush : x.push a s with ⟨_ | _, s'⟩
    · rfl
    · exact ih s'

/-! ## What is taken -/

def InRange (x : Bounds α) (a : α) : Prop := x.after < a ∧ a ≤ x.upto

instance (x : Bounds α) : DecidablePred x.InRange := fun a =>
  inferInstanceAs (Decidable (x.after < a ∧ a ≤ x.upto))

/-- A value of the range that does not pass the last one. -/
def Good (x : Bounds α) (a : α) : Prop := x.InRange a ∧ x.last.all (a ≤ ·) = true

instance (x : Bounds α) : DecidablePred x.Good := fun a =>
  inferInstanceAs (Decidable (x.InRange a ∧ x.last.all (a ≤ ·) = true))

/-- How many values there may be. The length is looked at after a value is put. -/
def limit (x : Bounds α) : Option Int → Nat
  | none => max x.most 1
  | some left => min left.toNat (max x.most 1)

def ranged (x : Bounds α) (P : List α) : List α := P.filter x.InRange

def selection (x : Bounds α) (left : Option Int) (P : List α) : List α :=
  (P.filter x.Good).take (x.limit left)

/-- No value of a list has stopped the series. -/
def Going (x : Bounds α) (left : Option Int) (P : List α) : Prop :=
  x.ranged P = [] ∨
    (∀ a ∈ x.ranged P, x.last.all (a ≤ ·) = true) ∧ (∀ c ∈ left, ((x.ranged P).length : Int) ≤ c) ∧
      (x.ranged P).length < x.most

variable {x : Bounds α} {left : Option Int} {P Q : List α} {a : α}

omit [LinearOrder α] in
theorem le_limit {n : Nat} : n ≤ x.limit left ↔ (∀ c ∈ left, n = 0 ∨ (n : Int) ≤ c) ∧ n ≤ max x.most 1 := by
  cases left with
  | none => simp [limit]
  | some c =>
    have hc : n ≤ c.toNat ↔ n = 0 ∨ (n : Int) ≤ c := by omega
    simp [limit, hc]

theorem filter_good (h : ∀ a ∈ x.ranged P, x.last.all (a ≤ ·) = true) :
    P.filter x.Good = x.ranged P := by
  unfold ranged
  refine List.filter_congr fun a ha => ?_
  by_cases hrange : x.InRange a
  · have hlast := h a (List.mem_filter.mpr ⟨ha, decide_eq_true hrange⟩)
    simp only [Good, hrange, hlast, and_self]
  · simp only [Good, hrange, false_and]

/-- As long as nothing has stopped the series, all of the range is taken. -/
theorem Going.selection_eq (h : x.Going left P) : x.selection left P = x.ranged P := by
  rcases h with h | ⟨hlast, hleft, hmost⟩
  · have hgood : P.filter x.Good = [] := by
      rw [← h]
      refine filter_good fun a ha => ?_
      rw [h] at ha
      cases ha
    rw [selection, hgood, h, List.take_nil]
  · rw [selection, filter_good hlast]
    refine List.take_of_length_le (le_limit.2 ⟨fun c hc => .inr (hleft c hc), ?_⟩)
    omega

theorem Going.length_le (h : x.Going left P) : (x.ranged P).length ≤ x.limit left := by
  refine le_limit.2 ?_
  rcases h with h | ⟨-, hleft, hmost⟩
  · rw [h]
    exact ⟨fun c hc => .inl rfl, Nat.zero_le _⟩
  · exact ⟨fun c hc => .inr (hleft c hc), by omega⟩

theorem ranged_append : x.ranged (P ++ Q) = x.ranged P ++ x.ranged Q := List.filter_append ..

/-- A series that is stopped stays so. -/
theorem Going.of_append (h : x.Going left (P ++ Q)) : x.Going left P := by
  rcases h with h | ⟨hlast, hleft, hmost⟩
  · rw [ranged_append, List.append_eq_nil_iff] at h
    exact .inl h.1
  · rw [ranged_append] at hlast hleft hmost
    rw [List.length_append] at hleft hmost
    refine .inr ⟨fun a ha => hlast a (List.mem_append_left _ ha), fun c hc => ?_, by omega⟩
    have hle := hleft c hc
    push_cast at hle
    omega

/-- What comes after a value that has stopped the series changes nothing. -/
theorem selection_append_of_stopped (hsorted : (P ++ Q).Pairwise (· < ·)) (h : ¬ x.Going left P) :
    x.selection left (P ++ Q) = x.selection left P := by
  obtain ⟨hne, h⟩ := not_or.mp h
  obtain ⟨-, -, hlater⟩ := List.pairwise_append.mp hsorted
  unfold selection
  rw [List.filter_append]
  by_cases hlast : ∀ a ∈ x.ranged P, x.last.all (a ≤ ·) = true
  · -- there are as many as there may be
    have hfull : x.limit left ≤ (x.ranged P).length := by
      by_contra hlt
      have hle := le_limit.1 (Nat.succ_le_of_lt (not_le.mp hlt))
      have hpos := List.length_pos_iff.mpr hne
      refine h ⟨hlast, fun c hc => ?_, by omega⟩
      have := hle.1 c hc
      omega
    rw [filter_good hlast, List.take_append_of_le_length hfull]
  · -- the later values pass the last one as well
    push Not at hlast
    obtain ⟨a, ha, hpast⟩ := hlast
    have hnone : Q.filter x.Good = [] := by
      refine List.filter_eq_nil_iff.mpr fun b hb => ?_
      have hlt := hlater a (List.mem_of_mem_filter ha) b hb
      simp only [decide_eq_true_eq]
      rintro ⟨-, hgood⟩
      cases hx : x.last with
      | none => simp [hx] at hpast
      | some l =>
        simp only [hx, Option.all_some, decide_eq_true_eq] at hpast hgood
        exact hpast (decide_eq_true (hlt.le.trans hgood))
    rw [hnone, List.append_nil]

/-- What is offered after the range changes nothing. -/
theorem selection_append_of_past (h : ∀ a ∈ Q, x.upto < a) :
    x.selection left (P ++ Q) = x.selection left P := by
  have hnone : Q.filter x.Good = [] := by
    refine List.filter_eq_nil_iff.mpr fun a ha => ?_
    simp only [decide_eq_true_eq]
    exact fun hgood => absurd hgood.1.2 (not_le.mpr (h a ha))
  rw [selection, selection, List.filter_append, hnone, List.append_nil]

/-! ## The runs -/

theorem pushAll_singleton (s : Taken α) : x.pushAll [a] s = x.push a s := by
  rw [pushAll]
  rcases x.push a s with ⟨_ | _, s'⟩ <;> rfl

/-- What has been taken while the series goes on. -/
def taken (x : Bounds α) (left : Option Int) (P : List α) : Taken α where
  out := (x.ranged P).reverse
  left := left.map (· - (x.ranged P).length)

/-- One more value. -/
theorem push_taken (h : x.Going left P) :
    ((x.push a (x.taken left P)).1 = true ↔ x.Going left (P ++ [a])) ∧
      (x.Going left (P ++ [a]) → (x.push a (x.taken left P)).2 = x.taken left (P ++ [a])) ∧
      (x.push a (x.taken left P)).2.out.reverse = x.selection left (P ++ [a]) := by
  have hsel := h.selection_eq
  by_cases hrange : x.InRange a
  swap
  · -- not of the range
    have hskip : a ≤ x.after ∨ x.upto < a := by
      rw [InRange, not_and_or, not_lt, not_le] at hrange
      exact hrange
    have hsame : x.ranged (P ++ [a]) = x.ranged P := by
      rw [ranged_append]
      simp [ranged, hrange]
    have hgood : (P ++ [a]).filter x.Good = P.filter x.Good := by
      rw [List.filter_append]
      simp [Good, hrange]
    have hgoing : x.Going left (P ++ [a]) := by
      unfold Going
      rw [hsame]
      exact h
    rw [push, if_pos hskip]
    refine ⟨⟨fun _ => hgoing, fun _ => rfl⟩, fun _ => ?_, ?_⟩
    · unfold taken
      rw [hsame]
    · rw [selection, hgood, ← selection, hsel]
      exact List.reverse_reverse _
  have hmore : x.ranged (P ++ [a]) = x.ranged P ++ [a] := by
    rw [ranged_append]
    simp [ranged, hrange]
  have hkeep : ¬ (a ≤ x.after ∨ x.upto < a) := by
    rw [not_or, not_le, not_lt]
    exact hrange
  have hlen : (x.taken left P).out.length = (x.ranged P).length := List.length_reverse
  rw [push, if_neg hkeep]
  by_cases hlast : x.last.all (a ≤ ·) = true
  swap
  · -- it passes the last value
    have hpast : x.last.any (· < a) = true := by
      cases hx : x.last with
      | none => simp [hx] at hlast
      | some l => simpa [hx] using hlast
    have hstop : ¬ x.Going left (P ++ [a]) := by
      rintro (hnil | ⟨hall, -, -⟩)
      · rw [hmore] at hnil
        simp at hnil
      · rw [hmore] at hall
        exact hlast (hall a (by simp))
    have hgood : (P ++ [a]).filter x.Good = P.filter x.Good := by
      rw [List.filter_append]
      simp [Good, hlast]
    rw [if_pos hpast]
    refine ⟨⟨fun h => (nomatch h), fun h => absurd h hstop⟩, fun h => absurd h hstop, ?_⟩
    rw [selection, hgood, ← selection, hsel]
    exact List.reverse_reverse _
  have hnot : ¬ x.last.any (· < a) = true := by
    cases hx : x.last with
    | none => simp
    | some l => simpa [hx] using hlast
  rw [if_neg hnot]
  have hall : ∀ b ∈ x.ranged (P ++ [a]), x.last.all (b ≤ ·) = true := by
    rw [hmore]
    intro b hb
    rcases List.mem_append.mp hb with hb | hb
    · rcases h with h | h
      · rw [h] at hb
        cases hb
      · exact h.1 b hb
    · obtain rfl := List.mem_singleton.mp hb
      exact hlast
  have hsel' : x.selection left (P ++ [a]) = (x.ranged P ++ [a]).take (x.limit left) := by
    rw [selection, filter_good hall, hmore]
  have hn := h.length_le
  by_cases hleft : (x.taken left P).left.any (· ≤ 0) = true
  · -- there are as many as there may be
    rw [if_pos hleft]
    obtain ⟨c, rfl, hc⟩ : ∃ c, left = some c ∧ c ≤ (x.ranged P).length := by
      cases left with
      | none => cases hleft
      | some c => exact ⟨c, rfl, by simpa [taken] using hleft⟩
    have hstop : ¬ x.Going (some c) (P ++ [a]) := by
      rintro (hnil | ⟨-, hcount, -⟩)
      · rw [hmore] at hnil
        simp at hnil
      · rw [hmore] at hcount
        have := hcount c rfl
        simp at this
        omega
    refine ⟨⟨fun h => (nomatch h), fun h => absurd h hstop⟩, fun h => absurd h hstop, ?_⟩
    have hfull : x.limit (some c) = (x.ranged P).length := by
      have hlimit : x.limit (some c) = min c.toNat (max x.most 1) := rfl
      rw [hlimit] at hn ⊢
      omega
    rw [hsel', hfull, List.take_left]
    exact List.reverse_reverse _
  · rw [if_neg hleft]
    have hroom : ∀ c ∈ left, ((x.ranged P).length : Int) + 1 ≤ c := by
      rintro c rfl
      have : ¬ c ≤ (x.ranged P).length := by simpa [taken] using hleft
      omega
    have hgoing : x.Going left (P ++ [a]) ↔ (x.ranged P).length + 1 < x.most := by
      unfold Going
      rw [hmore] at hall ⊢
      simp only [List.append_eq_nil_iff, List.cons_ne_self, and_false, false_or, List.length_append,
        List.length_singleton, Nat.cast_add, Nat.cast_one]
      exact ⟨fun h => h.2.2, fun h => ⟨hall, hroom, h⟩⟩
    have hfits : (x.ranged P).length + 1 ≤ x.limit left := by
      refine le_limit.2 ⟨fun c hc => .inr (hroom c hc), ?_⟩
      rcases h with h | h
      · rw [h]
        exact Nat.le_max_right _ _
      · omega
    refine ⟨?_, fun _ => ?_, ?_⟩
    · rw [hgoing, decide_eq_true_eq, hlen]
    · simp only [taken, hmore, List.reverse_append, List.reverse_singleton, List.singleton_append,
        List.length_append, List.length_singleton, Option.map_map]
      congr 2
      funext c
      simp only [Function.comp]
      omega
    · rw [hsel', List.take_of_length_le (by simpa using hfits)]
      simp [taken]

/-- A run over an increasing list goes on if nothing in the list stops it, and has taken what is to be
    taken of the list. -/
theorem pushAll_spec (x : Bounds α) (left : Option Int) (hsorted : P.Pairwise (· < ·)) :
    ((x.pushAll P ⟨[], left⟩).1 = true ↔ x.Going left P) ∧
      (x.Going left P → (x.pushAll P ⟨[], left⟩).2 = x.taken left P) ∧
      (x.pushAll P ⟨[], left⟩).2.out.reverse = x.selection left P := by
  induction P using List.reverseRecOn with
  | nil =>
    have hstart : x.taken left [] = ⟨[], left⟩ := by
      simp [taken, ranged]
    exact ⟨⟨fun _ => .inl rfl, fun _ => rfl⟩, fun _ => hstart.symm, by simp [pushAll, selection]⟩
  | append_singleton P a ih =>
    obtain ⟨hgoes, hstate, hout⟩ := ih (List.pairwise_append.mp hsorted).1
    rw [pushAll_append]
    by_cases hgoing : x.Going left P
    · rw [if_pos (hgoes.mpr hgoing), pushAll_singleton, hstate hgoing]
      exact push_taken hgoing
    · have hstop : ¬ x.Going left (P ++ [a]) := fun h => hgoing h.of_append
      rw [if_neg (fun h => hgoing (hgoes.mp h))]
      refine ⟨⟨fun h => absurd (hgoes.mp h) hgoing, fun h => absurd h hstop⟩,
        fun h => absurd h hstop, ?_⟩
      rw [hout, selection_append_of_stopped hsorted hgoing]

/-- What has been taken when a run ends, because something has stopped it or because it is past the
    range, is what is to be taken of all of the series. -/
theorem pushAll_complete (hsorted : (P ++ Q).Pairwise (· < ·))
    (hend : (x.pushAll P ⟨[], left⟩).1 = false ∨ ∀ a ∈ Q, x.upto < a) :
    (x.pushAll P ⟨[], left⟩).2.out.reverse = x.selection left (P ++ Q) := by
  obtain ⟨hgoes, -, hout⟩ := pushAll_spec x left (List.pairwise_append.mp hsorted).1
  rw [hout]
  rcases hend with hstop | hpast
  · refine (selection_append_of_stopped hsorted fun h => ?_).symm
    rw [hgoes.mpr h] at hstop
    cases hstop
  · exact (selection_append_of_past hpast).symm

/-! ## Turns -/

/-- A loop that offers some values at each turn, until it is past the range or a value stops it. Nothing
    comes back when it takes more than `fuel` turns. -/
def turns (x : Bounds α) (past : Nat → Bool) (offers : Nat → List α) :
    Nat → Nat → Taken α → Option (Taken α)
  | 0, _, _ => none
  | fuel + 1, k, s =>
    if past k then some s
    else
      match x.pushAll (offers k) s with
      | (true, s) => x.turns past offers fuel (k + 1) s
      | (false, s) => some s

variable {past : Nat → Bool} {offers : Nat → List α}

/-- What the turns before one have offered. -/
def offered (offers : Nat → List α) (k : Nat) : List α := (List.range k).flatMap offers

omit [LinearOrder α] in
theorem offered_succ (offers : Nat → List α) (k : Nat) :
    offered offers (k + 1) = offered offers k ++ offers k := by
  rw [offered, List.range_succ, List.flatMap_append, List.flatMap_singleton]
  rfl

omit [LinearOrder α] in
theorem offered_append (offers : Nat → List α) {k k' : Nat} (h : k ≤ k') :
    ∃ Q, offered offers k' = offered offers k ++ Q ∧
      ∀ a ∈ Q, ∃ j, k ≤ j ∧ a ∈ offers j := by
  obtain ⟨n, rfl⟩ := Nat.exists_eq_add_of_le h
  induction n with
  | zero => exact ⟨[], (List.append_nil _).symm, fun a ha => (nomatch ha)⟩
  | succ n ih =>
    obtain ⟨Q, hQ, hmem⟩ := ih (by omega)
    refine ⟨Q ++ offers (k + n), ?_, fun a ha => ?_⟩
    · rw [← Nat.add_assoc, offered_succ, hQ, List.append_assoc]
    · rcases List.mem_append.mp ha with ha | ha
      · exact hmem a ha
      · exact ⟨k + n, by omega, ha⟩

omit [LinearOrder α] in
theorem mem_offered {k : Nat} : a ∈ offered offers k ↔ ∃ j < k, a ∈ offers j := by
  simp [offered]

omit [LinearOrder α] in
theorem offered_sorted [Preorder α] (hturn : ∀ k, (offers k).Pairwise (· < ·))
    (hturns : ∀ j k, j < k → ∀ a ∈ offers j, ∀ b ∈ offers k, a < b) (k : Nat) :
    (offered offers k).Pairwise (· < ·) := by
  induction k with
  | zero => exact List.Pairwise.nil
  | succ k ih =>
    rw [offered_succ]
    refine List.pairwise_append.mpr ⟨ih, hturn k, fun a ha b hb => ?_⟩
    obtain ⟨j, hj, haj⟩ := mem_offered.1 ha
    exact hturns j k hj a haj b hb

/-- A loop runs over what the turns offer, up to a turn that is past the range or that stops it. -/
theorem turns_runs {s₀ s s' : Taken α} {fuel k : Nat}
    (hk : x.pushAll (offered offers k) s₀ = (true, s))
    (h : x.turns past offers fuel k s = some s') :
    ∃ K, (x.pushAll (offered offers K) s₀).2 = s' ∧
      ((x.pushAll (offered offers K) s₀).1 = false ∨ past K = true) := by
  induction fuel generalizing k s with
  | zero => cases h
  | succ fuel ih =>
    rw [turns] at h
    split_ifs at h with hpast
    · obtain rfl := Option.some.inj h
      exact ⟨k, by rw [hk], .inr hpast⟩
    · have hnext : x.pushAll (offered offers (k + 1)) s₀ = x.pushAll (offers k) s := by
        rw [offered_succ, pushAll_append, hk]
        rfl
      rcases hpush : x.pushAll (offers k) s with ⟨_ | _, s₁⟩
      · rw [hpush] at h hnext
        obtain rfl := Option.some.inj h
        exact ⟨k + 1, by rw [hnext], .inl (by rw [hnext])⟩
      · rw [hpush] at h hnext
        exact ih hnext h

/-! ## The series as a set -/

/-- How many values of a set come before one. -/
noncomputable def rank (S : Set α) (a : α) : Nat := {b ∈ S | b < a}.ncard

/-- A value is taken if it is one of the set, in the range and up to the last one, and few enough values
    come before it. -/
theorem mem_selection_iff {S : Set α} (hsorted : P.Pairwise (· < ·))
    (hS : ∀ a, a ≤ x.upto → (a ∈ S ↔ a ∈ P ∧ x.after < a)) :
    a ∈ x.selection left P ↔
      a ∈ S ∧ a ≤ x.upto ∧ x.last.all (a ≤ ·) = true ∧ rank S a < x.limit left := by
  have hmem : a ∈ P.filter x.Good ↔ a ∈ S ∧ a ≤ x.upto ∧ x.last.all (a ≤ ·) = true := by
    rw [List.mem_filter, decide_eq_true_iff]
    constructor
    · rintro ⟨ha, ⟨hafter, hupto⟩, hlast⟩
      exact ⟨(hS a hupto).mpr ⟨ha, hafter⟩, hupto, hlast⟩
    · rintro ⟨ha, hupto, hlast⟩
      obtain ⟨hP, hafter⟩ := (hS a hupto).mp ha
      exact ⟨hP, ⟨hafter, hupto⟩, hlast⟩
  by_cases hgood : a ∈ P.filter x.Good
  swap
  · refine ⟨fun h => absurd (List.mem_of_mem_take h) hgood, fun h => ?_⟩
    exact absurd (hmem.mpr ⟨h.1, h.2.1, h.2.2.1⟩) hgood
  obtain ⟨ha, hupto, hlast⟩ := hmem.mp hgood
  simp only [ha, hupto, hlast, true_and]
  have hrank : rank S a = (P.filter x.Good).countP (fun b => decide (b < a)) := by
    have hset : {b ∈ S | b < a} = {b | b ∈ (P.filter x.Good).filter (· < a)} := by
      ext b
      simp only [Set.mem_ofPred_eq, List.mem_filter, decide_eq_true_eq]
      constructor
      · rintro ⟨hb, hlt⟩
        obtain ⟨hP, hafter⟩ := (hS b (hlt.le.trans hupto)).mp hb
        refine ⟨⟨hP, ⟨hafter, hlt.le.trans hupto⟩, ?_⟩, hlt⟩
        cases hx : x.last with
        | none => rfl
        | some l =>
          rw [hx] at hlast
          simp only [Option.all_some, decide_eq_true_eq] at hlast ⊢
          exact hlt.le.trans hlast
      · rintro ⟨⟨hP, ⟨hafter, hle⟩, -⟩, hlt⟩
        exact ⟨(hS b hle).mpr ⟨hP, hafter⟩, hlt⟩
    have hnodup : ((P.filter x.Good).filter (· < a)).Nodup :=
      ((hsorted.filter _).filter _).imp fun h => h.ne
    have hcoe : {b | b ∈ (P.filter x.Good).filter (· < a)} =
        ↑((P.filter x.Good).filter (· < a)).toFinset := (List.coe_toFinset _).symm
    rw [rank, hset, hcoe, Set.ncard_coe_finset, List.toFinset_card_of_nodup hnodup,
      List.countP_eq_length_filter]
  rw [selection, Selection.mem_take_iff (hsorted.filter _) (fun a b h => h.asymm) hgood, hrank]

/-- The values of a series that come after the first one. -/
def later (x : Bounds α) (offers : Nat → List α) : Set α := {a | x.after < a ∧ ∃ k, a ∈ offers k}

/-- What a loop has taken in the end: the values of the series that are in the range, up to the last one
    and with few enough values before them. -/
theorem mem_turns_iff {s : Taken α} {fuel : Nat} (hsorted : ∀ k, (offered offers k).Pairwise (· < ·))
    (hpast : ∀ k, past k = true → (x.pushAll (offered offers k) ⟨[], left⟩).1 = false ∨
      ∀ j ≥ k, ∀ a ∈ offers j, x.upto < a)
    (hends : ∃ k, ∀ j ≥ k, ∀ a ∈ offers j, x.upto < a)
    (h : x.turns past offers fuel 0 ⟨[], left⟩ = some s) :
    s.out.reverse.Pairwise (· < ·) ∧ ∀ a, a ∈ s.out ↔
      a ∈ x.later offers ∧ a ≤ x.upto ∧ x.last.all (a ≤ ·) = true ∧
        rank (x.later offers) a < x.limit left := by
  have hstart : x.pushAll (offered offers 0) ⟨[], left⟩ = (true, ⟨[], left⟩) := rfl
  obtain ⟨K, rfl, hstop⟩ := turns_runs hstart h
  obtain ⟨K', hK'⟩ := hends
  obtain ⟨Q, hQ, hmem⟩ := offered_append offers (Nat.le_max_left K K')
  have hend : (x.pushAll (offered offers K) ⟨[], left⟩).1 = false ∨ ∀ a ∈ Q, x.upto < a := by
    rcases hstop with hstop | hover
    · exact .inl hstop
    · refine (hpast K hover).imp_right fun hlater a ha => ?_
      obtain ⟨j, hj, haj⟩ := hmem a ha
      exact hlater j hj a haj
  have hall := hsorted (max K K')
  rw [hQ] at hall
  have hout := pushAll_complete hall hend
  have hS : ∀ a, a ≤ x.upto → (a ∈ x.later offers ↔ a ∈ offered offers K ++ Q ∧ x.after < a) := by
    intro a ha
    rw [← hQ, mem_offered]
    constructor
    · rintro ⟨hafter, k, hk⟩
      refine ⟨⟨k, ?_, hk⟩, hafter⟩
      by_contra hge
      have hge' : K' ≤ k := by omega
      exact absurd ha (not_le.mpr (hK' k hge' a hk))
    · rintro ⟨⟨k, -, hk⟩, hafter⟩
      exact ⟨hafter, k, hk⟩
  constructor
  · rw [hout]
    exact (hall.filter _).sublist (List.take_sublist _ _)
  · intro a
    rw [← List.mem_reverse, hout]
    exact mem_selection_iff hall hS

end Bounds

end Series
