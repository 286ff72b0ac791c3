import Mathlib.Data.List.Sort
import Mathlib.Order.Defs.LinearOrder

/-!
# The best of a list

A bounded selector keeps the best elements that it was offered, best first. Two ways to rank the same
elements that agree on their scores choose the same best ones in the same order exactly if they agree
on the order of equal scores, as far as these are chosen.
-/

namespace Selection

variable {α : Type*}

/-! ## Bounded selection -/

section

variable [LinearOrder α]

/-- Best first. -/
def rank (l : List α) : List α :=
  l.insertionSort (· ≥ ·)

/-- Offers an element to the best `k`, and says whether it is among them now. -/
def offer (k : Nat) (best : List α) (c : α) : List α × Bool :=
  if best.length < k then (best.orderedInsert (· ≥ ·) c, true)
  else
    match best.getLast? with
    | some worst =>
      if worst < c then (best.dropLast.orderedInsert (· ≥ ·) c, true) else (best, false)
    | none => (best, false)

/-- The best `k` of a list, offered one after another. -/
def select (k : Nat) (l : List α) : List α :=
  l.foldl (fun best c => (offer k best c).1) []

theorem rank_perm (l : List α) : (rank l).Perm l :=
  l.perm_insertionSort _

theorem rank_sorted (l : List α) : (rank l).Pairwise (· ≥ ·) :=
  l.pairwise_insertionSort _

theorem rank_congr {l l' : List α} (h : l.Perm l') : rank l = rank l' := by
  refine List.Perm.eq_of_pairwise (fun a b _ _ hab hba => le_antisymm hba hab) (rank_sorted l)
    (rank_sorted l') ?_
  exact (rank_perm l).trans (h.trans (rank_perm l').symm)

/-- The first elements of a list into which an element is put. -/
theorem take_orderedInsert {l : List α} (hl : l.Pairwise (· ≥ ·)) (c : α) (n : Nat) :
    (l.orderedInsert (· ≥ ·) c).take (n + 1) =
      if ∃ b, l[n]? = some b ∧ c < b then l.take (n + 1)
      else (l.take n).orderedInsert (· ≥ ·) c := by
  induction l generalizing n with
  | nil => simp
  | cons b l ih =>
    rw [List.pairwise_cons] at hl
    by_cases hcb : c ≥ b
    · have hnot : ¬ ∃ b', (b :: l)[n]? = some b' ∧ c < b' := by
        rintro ⟨b', hb', hlt⟩
        rcases List.mem_cons.mp (List.mem_of_getElem? hb') with rfl | hmem
        · exact absurd hlt (not_lt.mpr hcb)
        · exact absurd (hlt.trans_le (hl.1 b' hmem)) (not_lt.mpr hcb)
      rw [if_neg hnot, List.orderedInsert_cons_of_le _ _ hcb, List.take_succ_cons]
      cases n with
      | zero => rfl
      | succ n => rw [List.take_succ_cons, List.orderedInsert_cons_of_le _ _ hcb]
    · rw [List.orderedInsert_of_not_le _ _ hcb, List.take_succ_cons]
      cases n with
      | zero => simp [not_le.mp hcb]
      | succ n =>
        rw [ih hl.2]
        simp only [List.getElem?_cons_succ, List.take_succ_cons]
        split_ifs with h
        · rfl
        · rw [List.orderedInsert_of_not_le _ _ hcb]

theorem offer_eq (k : Nat) (seen : List α) (c : α) :
    (offer k ((rank seen).take k) c).1 = (rank (c :: seen)).take k := by
  have hsorted := rank_sorted seen
  have hcons : rank (c :: seen) = (rank seen).orderedInsert (· ≥ ·) c := rfl
  unfold offer
  split_ifs with hlen
  · -- there are fewer than `k` elements so far
    have hshort : (rank seen).length < k := by
      rw [List.length_take] at hlen
      omega
    rw [hcons, List.take_of_length_le hshort.le, List.take_of_length_le]
    rw [List.orderedInsert_length]
    exact hshort
  · rw [List.length_take] at hlen
    cases k with
    | zero => simp
    | succ n =>
      have hn : n < (rank seen).length := by omega
      have hlast : ((rank seen).take (n + 1)).getLast? = some (rank seen)[n] := by
        rw [List.getLast?_take]
        simp [hn]
      have hinit : ((rank seen).take (n + 1)).dropLast = (rank seen).take n := by
        rw [List.dropLast_eq_take, List.length_take, List.take_take]
        congr 1
        omega
      rw [hcons, take_orderedInsert hsorted, hlast, hinit]
      simp only [List.getElem?_eq_getElem hn, Option.some.injEq, exists_eq_left']
      rcases lt_trichotomy (rank seen)[n] c with hlt | heq | hgt
      · rw [if_pos hlt, if_neg hlt.asymm]
      · -- an element that is there already
        rw [if_neg heq.not_lt, if_neg heq.not_gt]
        refine List.Perm.eq_of_pairwise (fun a b _ _ hab hba => le_antisymm hba hab)
          (hsorted.sublist (List.take_sublist _ _)) (.orderedInsert _ _ ?_) ?_
        · exact hsorted.sublist (List.take_sublist _ _)
        · rw [List.take_succ_eq_append_getElem hn, heq]
          exact (List.perm_append_singleton _ _).trans (List.perm_orderedInsert _ _ _).symm
      · rw [if_neg hgt.asymm, if_pos hgt]

theorem select_eq (k : Nat) (l : List α) : select k l = (rank l).take k := by
  have hgeneral : ∀ l seen : List α,
      l.foldl (fun best c => (offer k best c).1) ((rank seen).take k) = (rank (l ++ seen)).take k := by
    intro l
    induction l with
    | nil => exact fun seen => rfl
    | cons c l ih =>
      intro seen
      rw [List.foldl_cons, offer_eq, ih (c :: seen), rank_congr List.perm_middle]
      rfl
  have h := hgeneral l []
  rw [List.append_nil, show (rank ([] : List α)).take k = [] from List.take_nil] at h
  exact h

end

/-! ## Two rankings -/

section

variable {r : α → α → Prop} {l l₁ l₂ : List α} {i j n : Nat} {a b : α}

theorem rel_of_lt (h : l.Pairwise r) (hi : l[i]? = some a) (hj : l[j]? = some b) (hij : i < j) :
    r a b := by
  obtain ⟨hi', rfl⟩ := List.getElem?_eq_some_iff.mp hi
  obtain ⟨hj', rfl⟩ := List.getElem?_eq_some_iff.mp hj
  exact List.pairwise_iff_getElem.mp h i j hi' hj' hij

theorem getElem?_of_take_eq (h : l₁.take n = l₂.take n) (hi : i < n) : l₁[i]? = l₂[i]? := by
  rw [← List.getElem?_take_of_lt hi, h, List.getElem?_take_of_lt hi]

/-- Where the element is that comes next in another order of the same elements. -/
theorem later_of_take_eq (h₂ : l₂.Pairwise r) (hasymm : ∀ a b, r a b → ¬ r b a)
    (hperm : l₁.Perm l₂) (htake : l₁.take n = l₂.take n) (ha : l₁[n]? = some a)
    (hb : l₂[n]? = some b) (hne : a ≠ b) : ∃ q, n < q ∧ l₁[q]? = some b := by
  obtain ⟨q, hq⟩ := List.mem_iff_getElem?.mp (hperm.mem_iff.mpr (List.mem_of_getElem? hb))
  refine ⟨q, ?_, hq⟩
  rcases lt_trichotomy q n with hlt | rfl | hlt
  · have hbb : r b b := by
      rw [getElem?_of_take_eq htake hlt] at hq
      exact rel_of_lt h₂ hq hb hlt
    exact (hasymm b b hbb hbb).elim
  · exact (hne (Option.some.inj (ha.symm.trans hq))).elim
  · exact hlt

/-- An element is among the first `k` if fewer than `k` come before it. -/
theorem mem_take_iff [DecidableRel r] (h : l.Pairwise r) (hasymm : ∀ a b, r a b → ¬ r b a) (ha : a ∈ l)
    (k : Nat) : a ∈ l.take k ↔ l.countP (fun b => decide (r b a)) < k := by
  induction l generalizing k with
  | nil => cases ha
  | cons b l ih =>
    rw [List.pairwise_cons] at h
    have hirrefl : ∀ b, ¬ r b b := fun b hb => hasymm b b hb hb
    rw [List.countP_cons]
    by_cases hba : r b a
    · have hne : a ≠ b := by
        rintro rfl
        exact hirrefl a hba
      have ha' : a ∈ l := (List.mem_cons.mp ha).resolve_left hne
      rw [if_pos (decide_eq_true hba)]
      cases k with
      | zero => simp
      | succ k =>
        rw [List.take_succ_cons, List.mem_cons, or_iff_right hne, ih h.2 ha' k]
        omega
    · have hab : a = b := by
        rcases List.mem_cons.mp ha with hab | ha'
        · exact hab
        · exact (hba (h.1 a ha')).elim
      subst hab
      have hzero : l.countP (fun b => decide (r b a)) = 0 := by
        rw [List.countP_eq_zero]
        intro b hb
        simpa using hasymm a b (h.1 b hb)
      rw [hzero, if_neg (by simpa using hba)]
      cases k with
      | zero => simp
      | succ k => simp

end

/-- Two lists of the same elements, each in the strict order of a ranking, and both in the order of the
    scores, have the same first `k` elements exactly if, of two elements with the same score, the first
    of which is among the first `k`, the second ranking puts the same one first. -/
theorem take_eq_take_iff {σ : Type*} [PartialOrder σ] {score : α → σ} {r₁ r₂ : α → α → Prop}
    {l₁ l₂ : List α} (hperm : l₁.Perm l₂) (h₁ : l₁.Pairwise r₁) (h₂ : l₂.Pairwise r₂)
    (hasymm₁ : ∀ a b, r₁ a b → ¬ r₁ b a) (hasymm₂ : ∀ a b, r₂ a b → ¬ r₂ b a)
    (hscore₁ : ∀ a b, r₁ a b → score b ≤ score a) (hscore₂ : ∀ a b, r₂ a b → score b ≤ score a)
    (k : Nat) :
    l₁.take k = l₂.take k ↔
      ∀ a ∈ l₁.take k, ∀ b ∈ l₁, score a = score b → r₁ a b → r₂ a b := by
  constructor
  · intro heq a ha b hb hs hab
    obtain ⟨p, hp⟩ := List.mem_iff_getElem?.mp ha
    have hpk : p < k := by
      have hlt := (List.getElem?_eq_some_iff.mp hp).1
      rw [List.length_take] at hlt
      omega
    rw [List.getElem?_take_of_lt hpk] at hp
    obtain ⟨q, hq⟩ := List.mem_iff_getElem?.mp (hperm.mem_iff.mp hb)
    have hp₂ : l₂[p]? = some a := by rw [← getElem?_of_take_eq heq hpk, hp]
    rcases lt_trichotomy p q with hlt | rfl | hlt
    · exact rel_of_lt h₂ hp₂ hq hlt
    · obtain rfl := Option.some.inj (hp₂.symm.trans hq)
      exact (hasymm₁ a a hab hab).elim
    · have hq₁ : l₁[q]? = some b := by rw [getElem?_of_take_eq heq (hlt.trans hpk), hq]
      exact (hasymm₁ a b hab (rel_of_lt h₁ hq₁ hp hlt)).elim
  · intro hties
    have hlength := hperm.length_eq
    have hsame : ∀ n, n ≤ k → l₁.take n = l₂.take n := by
      intro n
      induction n with
      | zero => exact fun _ => rfl
      | succ n ih =>
        intro hn
        have htake := ih (by omega)
        rw [List.take_add_one, List.take_add_one, htake]
        congr 2
        by_cases hlt : n < l₁.length
        · obtain ⟨a, ha⟩ : ∃ a, l₁[n]? = some a := ⟨_, List.getElem?_eq_getElem hlt⟩
          obtain ⟨b, hb⟩ : ∃ b, l₂[n]? = some b := ⟨_, List.getElem?_eq_getElem (hlength ▸ hlt)⟩
          rw [ha, hb, Option.some.injEq]
          by_contra hne
          obtain ⟨q, hnq, hq⟩ := later_of_take_eq h₂ hasymm₂ hperm htake ha hb hne
          obtain ⟨p, hnp, hp⟩ := later_of_take_eq h₁ hasymm₁ hperm.symm htake.symm hb ha (Ne.symm hne)
          have hab := rel_of_lt h₁ ha hq hnq
          have hba := rel_of_lt h₂ hb hp hnp
          have hs : score a = score b := le_antisymm (hscore₂ b a hba) (hscore₁ a b hab)
          have hmem : a ∈ l₁.take k := List.mem_of_getElem? (by rw [List.getElem?_take_of_lt hn, ha])
          exact hasymm₂ b a hba (hties a hmem b (List.mem_of_getElem? hq) hs hab)
        · rw [List.getElem?_eq_none (by omega), List.getElem?_eq_none (by omega)]
    exact hsame k le_rfl

end Selection
