import Mathlib.Algebra.BigOperators.Group.Finset.Basic
import Mathlib.Algebra.Order.BigOperators.Group.Finset

/-!
# Counters of accounts

A counter that is kept beside the accounts it adds up: it is balanced as long as each change of it is
one of an account, and what moves from one account to another leaves it alone.
-/

namespace Balance

variable {α : Type*} {total : ℕ} {s s' : Finset α} {f f' : α → ℕ} {a b : α}

/-- The counter is the sum of the accounts, and there is nothing in any other. -/
structure Balanced (total : ℕ) (s : Finset α) (f : α → ℕ) : Prop where
  closed : ∀ a, a ∉ s → f a = 0
  sum : ∑ a ∈ s, f a = total

theorem Balanced.mono (h : Balanced total s f) (hs : s ⊆ s') : Balanced total s' f := by
  refine ⟨fun a ha => h.closed a fun ha' => ha (hs ha'), ?_⟩
  rw [← h.sum]
  exact (Finset.sum_subset hs fun a _ ha => h.closed a ha).symm

theorem Balanced.le (h : Balanced total s f) (a : α) : f a ≤ total := by
  by_cases ha : a ∈ s
  · rw [← h.sum]
    exact Finset.single_le_sum (fun b _ => Nat.zero_le (f b)) ha
  · rw [h.closed a ha]
    exact Nat.zero_le _

variable [DecidableEq α]

/-- One account of a balanced counter changes, or one outside that stays empty. -/
theorem Balanced.set (h : Balanced total s f) (ha : a ∉ s → f' a = 0) (hf : ∀ b, b ≠ a → f' b = f b)
    {total' : ℕ} (htotal : total' + f a = total + f' a) : Balanced total' s f' := by
  refine ⟨fun b hb => ?_, ?_⟩
  · by_cases hba : b = a
    · rw [hba]
      exact ha (hba ▸ hb)
    · rw [hf b hba]
      exact h.closed b hb
  · by_cases hmem : a ∈ s
    · have hrest : ∑ b ∈ s.erase a, f' b = ∑ b ∈ s.erase a, f b :=
        Finset.sum_congr rfl fun b hb => hf b (Finset.ne_of_mem_erase hb)
      have hold := Finset.add_sum_erase s f hmem
      have hnew := Finset.add_sum_erase s f' hmem
      rw [h.sum] at hold
      rw [hrest] at hnew
      omega
    · have hsum : ∑ b ∈ s, f' b = ∑ b ∈ s, f b := by
        refine Finset.sum_congr rfl fun b hb => hf b ?_
        rintro rfl
        exact hmem hb
      rw [hsum, h.sum]
      rw [h.closed a hmem, ha hmem] at htotal
      exact htotal.symm

/-- What two accounts hold together stays the same. -/
theorem Balanced.move (h : Balanced total s f) (ha : a ∉ s → f' a = 0) (hb : b ∈ s) (hab : a ≠ b)
    (hf : ∀ c, c ≠ a → c ≠ b → f' c = f c) (hsum : f' a + f' b = f a + f b) : Balanced total s f' := by
  have hle : f a ≤ total := h.le a
  have hpaid : Balanced (total - f a + f' a) s (Function.update f a (f' a)) := by
    refine h.set (fun hmem => ?_) (fun c hc => Function.update_of_ne hc _ _) ?_
    · rw [Function.update_self]
      exact ha hmem
    · rw [Function.update_self]
      omega
  refine hpaid.set (fun hmem => (hmem hb).elim) (fun c hc => ?_) ?_
  · by_cases hca : c = a
    · rw [hca, Function.update_self]
    · rw [Function.update_of_ne hca, hf c hca hc]
  · rw [Function.update_of_ne (Ne.symm hab)]
    have hle' := h.le b
    omega

end Balance
