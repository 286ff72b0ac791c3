import Mathlib.Logic.Function.Basic
import Mathlib.Tactic.SplitIfs

/-!
# Locks

A lock that at most one of some tasks holds. Which tasks hold it is read off what they are about to do.
-/

namespace Mutex

variable {ι τ : Type*} {lock : Option ι} {holds : τ → Bool} {tasks : ι → τ} {i j : ι} {task : τ}

/-- The lock is held by exactly the task that it names. -/
def Held (lock : Option ι) (holds : τ → Bool) (tasks : ι → τ) : Prop :=
  ∀ i, holds (tasks i) = true ↔ lock = some i

theorem Held.unique (h : Held lock holds tasks) (hi : holds (tasks i) = true)
    (hj : holds (tasks j) = true) : i = j := by
  rw [h i] at hi
  rw [h j, hi] at hj
  exact Option.some.inj hj

theorem Held.free (h : Held lock holds tasks) (hnone : ∀ i, holds (tasks i) = false) : lock = none := by
  cases lock with
  | none => rfl
  | some i =>
    have hi := (h i).mpr rfl
    rw [hnone i] at hi
    cases hi

theorem Held.not_holds (h : Held none holds tasks) (i : ι) : holds (tasks i) = false := by
  rw [Bool.eq_false_iff]
  intro hi
  cases (h i).mp hi

variable [DecidableEq ι]

/-- A task goes on with the lock, or without it, as before. -/
theorem Held.keep (h : Held lock holds tasks) (htask : holds task = holds (tasks i)) :
    Held lock holds (Function.update tasks i task) := by
  intro j
  rw [Function.update_apply]
  split_ifs with hj
  · rw [htask, hj]
    exact h i
  · exact h j

/-- A task takes the lock. -/
theorem Held.take (h : Held none holds tasks) (htask : holds task = true) :
    Held (some i) holds (Function.update tasks i task) := by
  intro j
  rw [Function.update_apply]
  split_ifs with hj
  · rw [hj]
    exact iff_of_true htask rfl
  · rw [h.not_holds j, Option.some.injEq]
    exact iff_of_false Bool.false_ne_true (Ne.symm hj)

/-- A task gives the lock back, if it has it. -/
theorem Held.release (h : Held lock holds tasks) (htask : holds task = false) :
    Held (lock.filter (· ≠ i)) holds (Function.update tasks i task) := by
  intro j
  rw [Function.update_apply, Option.filter_eq_some_iff, decide_eq_true_eq]
  split_ifs with hj
  · rw [htask]
    exact iff_of_false Bool.false_ne_true fun hlock => hlock.2 hj
  · rw [h j]
    exact ⟨fun hlock => ⟨hlock, hj⟩, fun hlock => hlock.1⟩

end Mutex
