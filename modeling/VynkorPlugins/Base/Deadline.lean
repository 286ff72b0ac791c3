import Mathlib.Data.List.Basic
import Mathlib.Order.Lattice
import Mathlib.Order.MinMax

/-!
# Waiting with a deadline

Events arrive in the order of their times. A wait that sets its deadline anew at every event ends in
time only if it is left alone until its first deadline, or an event that ends it comes before.
-/

namespace Deadline

variable {α : Type*}

/-- An event with its time. -/
structure Arrival (α : Type*) where
  time : Nat
  event : α

/-- The arrivals are in the order of their times. -/
def Sorted (arrivals : List (Arrival α)) : Prop :=
  arrivals.Pairwise fun a b => a.time ≤ b.time

/-- A time is before a deadline. What happens at the very moment of a deadline comes before it if
    events go first. -/
def before (eventsFirst : Bool) (time deadline : Nat) : Bool :=
  if eventsFirst then time ≤ deadline else time < deadline

section

variable {eventsFirst : Bool} {t t' d : Nat}

theorem le_of_before (h : before eventsFirst t d = true) : t ≤ d := by
  unfold before at h
  split at h
  · exact of_decide_eq_true h
  · exact Nat.le_of_lt (of_decide_eq_true h)

theorem le_of_not_before (h : before eventsFirst t d = false) : d ≤ t := by
  unfold before at h
  split at h
  · exact Nat.le_of_lt (Nat.lt_of_not_le (of_decide_eq_false h))
  · exact Nat.le_of_not_lt (of_decide_eq_false h)

theorem before_of_le (h : before eventsFirst t' d = true) (ht : t ≤ t') :
    before eventsFirst t d = true := by
  cases eventsFirst with
  | true => exact decide_eq_true (ht.trans (of_decide_eq_true h))
  | false => exact decide_eq_true (Nat.lt_of_le_of_lt ht (of_decide_eq_true h))

theorem not_before_of_le (h : before eventsFirst t d = false) (ht : t ≤ t') :
    before eventsFirst t' d = false := by
  cases h' : before eventsFirst t' d with
  | false => rfl
  | true => rw [before_of_le h' ht] at h; exact h

end

/-- Waits from a time on for an event that ends the wait. At every other one the limit starts again. The
    time of the end comes first, then whether an event made it. -/
def restarting (eventsFirst : Bool) (ends : α → Bool) (limit : Nat) :
    Nat → List (Arrival α) → Nat × Bool
  | now, [] => (now + limit, false)
  | now, a :: rest =>
    if before eventsFirst a.time (now + limit) then
      if ends a.event then (max now a.time, true)
      else restarting eventsFirst ends limit (max now a.time) rest
    else (now + limit, false)

variable {eventsFirst : Bool} {ends : α → Bool} {limit now : Nat} {arrivals : List (Arrival α)}
  {a : Arrival α}

theorem restarting_cons :
    restarting eventsFirst ends limit now (a :: arrivals) =
      if before eventsFirst a.time (now + limit) then
        if ends a.event then (max now a.time, true)
        else restarting eventsFirst ends limit (max now a.time) arrivals
      else (now + limit, false) := rfl

/-- The wait is over when the first ending event arrives, at the latest. -/
theorem restarting_le_of_ends (hsorted : Sorted arrivals) (ha : a ∈ arrivals) (hends : ends a.event = true) :
    (restarting eventsFirst ends limit now arrivals).1 ≤ max now a.time := by
  induction arrivals generalizing now with
  | nil => cases ha
  | cons b rest ih =>
    have hba : b.time ≤ a.time := by
      rcases List.mem_cons.mp ha with rfl | ha
      · exact le_refl _
      · exact List.rel_of_pairwise_cons hsorted ha
    rw [restarting_cons]
    split_ifs with hbefore hb
    · exact max_le_max (le_refl now) hba
    · rcases List.mem_cons.mp ha with rfl | ha
      · exact (hb hends).elim
      · refine (ih hsorted.of_cons ha).trans ?_
        rw [max_assoc, max_eq_right hba]
    · have hle := le_of_not_before (Bool.eq_false_of_not_eq_true hbefore)
      exact (hle.trans hba).trans (le_max_right _ _)

/-- A wait that nothing wakes between its beginning and its first deadline is over by then. -/
theorem restarting_le_of_quiet
    (hquiet : ∀ a ∈ arrivals, a.time ≤ now ∨ before eventsFirst a.time (now + limit) = false) :
    (restarting eventsFirst ends limit now arrivals).1 ≤ now + limit := by
  induction arrivals with
  | nil => exact le_refl _
  | cons a rest ih =>
    rw [restarting_cons]
    split_ifs with hbefore ha
    · have hle := le_of_before hbefore
      exact max_le (Nat.le_add_right now limit) hle
    · rcases hquiet a List.mem_cons_self with hnow | hnot
      · rw [max_eq_left hnow]
        exact ih fun b hb => hquiet b (List.mem_cons_of_mem a hb)
      · rw [hnot] at hbefore
        cases hbefore
    · exact le_refl _

/-- How a wait ends: at an ending event, or a limit after the event that woke it last. If that is the
    first deadline, nothing has woken it before. -/
theorem restarting_cases (eventsFirst : Bool) (ends : α → Bool) (limit now : Nat)
    (hsorted : Sorted arrivals) :
    (∃ a ∈ arrivals, ends a.event = true ∧
      restarting eventsFirst ends limit now arrivals = (max now a.time, true)) ∨
    ∃ w, now ≤ w ∧ restarting eventsFirst ends limit now arrivals = (w + limit, false) ∧
      (w = now → ∀ a ∈ arrivals, a.time ≤ now ∨ before eventsFirst a.time (now + limit) = false) := by
  induction arrivals generalizing now with
  | nil => exact .inr ⟨now, le_refl _, rfl, fun _ a ha => nomatch ha⟩
  | cons a rest ih =>
    rw [restarting_cons]
    split_ifs with hbefore ha
    · exact .inl ⟨a, List.mem_cons_self, ha, rfl⟩
    · rcases ih (max now a.time) hsorted.of_cons with ⟨b, hb, hends, heq⟩ | ⟨w, hw, heq, hquiet⟩
      · have hab : a.time ≤ b.time := List.rel_of_pairwise_cons hsorted hb
        refine .inl ⟨b, List.mem_cons_of_mem a hb, hends, ?_⟩
        rw [heq, max_assoc, max_eq_right hab]
      · refine .inr ⟨w, (le_max_left _ _).trans hw, heq, ?_⟩
        rintro rfl
        have hanow : a.time ≤ w := (le_max_right _ _).trans hw
        rw [max_eq_left hanow] at hquiet
        intro b hb
        rcases List.mem_cons.mp hb with rfl | hb
        · exact .inl hanow
        · exact hquiet rfl b hb
    · refine .inr ⟨now, le_refl _, rfl, fun _ b hb => .inr ?_⟩
      have hnot := Bool.eq_false_of_not_eq_true hbefore
      rcases List.mem_cons.mp hb with rfl | hb
      · exact hnot
      · exact not_before_of_le hnot (List.rel_of_pairwise_cons hsorted hb)

end Deadline
