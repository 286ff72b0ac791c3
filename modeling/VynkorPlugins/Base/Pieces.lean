import Mathlib.Data.List.Basic
import Mathlib.Data.List.Forall2
import Mathlib.Data.String.Basic

/-!
# Cutting lists into pieces of one size

A list is cut as long as there is a whole piece; what is left is shorter than a piece. Whole pieces in
front of a list do not change how the rest of it is cut.
-/

namespace Pieces

variable {α : Type*} {n : Nat} {a b l : List α} {pieces : List (List α)}

/-- The pieces of a list, and what is left of it. -/
def cut (n : Nat) (l : List α) : List (List α) × List α :=
  if 0 < n ∧ n ≤ l.length then
    let r := cut n (l.drop n)
    (l.take n :: r.1, r.2)
  else ([], l)
termination_by l.length
decreasing_by
  rw [List.length_drop]
  omega

/-- The pieces without what is left (`chunks_exact`). -/
def chunksExact (n : Nat) (l : List α) : List (List α) :=
  (cut n l).1

theorem cut_of_le (hn : 0 < n) (h : n ≤ l.length) :
    cut n l = (l.take n :: (cut n (l.drop n)).1, (cut n (l.drop n)).2) := by
  rw [cut, if_pos ⟨hn, h⟩]

theorem cut_of_lt (h : l.length < n) : cut n l = ([], l) := by
  rw [cut, if_neg]
  omega

/-- No byte is lost or moved. -/
theorem cut_flatten (n : Nat) (l : List α) : (cut n l).1.flatten ++ (cut n l).2 = l := by
  induction l using cut.induct (n := n) with
  | case1 l h ih =>
    rw [cut_of_le h.1 h.2]
    simp only [List.flatten_cons, List.append_assoc]
    rw [ih, List.take_append_drop]
  | case2 l h =>
    rw [cut, if_neg h]
    rfl

theorem length_of_mem_cut (h : a ∈ (cut n l).1) : a.length = n := by
  induction l using cut.induct (n := n) with
  | case1 l hl ih =>
    rw [cut_of_le hl.1 hl.2] at h
    rcases List.mem_cons.mp h with rfl | h
    · rw [List.length_take]
      omega
    · exact ih h
  | case2 l hl =>
    rw [cut, if_neg hl] at h
    cases h

theorem length_rest_lt (hn : 0 < n) (l : List α) : (cut n l).2.length < n := by
  induction l using cut.induct (n := n) with
  | case1 l h ih =>
    rw [cut_of_le h.1 h.2]
    exact ih
  | case2 l h =>
    rw [cut, if_neg h]
    simp only
    omega

theorem cut_append (hn : 0 < n) (ha : a.length = n) :
    cut n (a ++ b) = (a :: (cut n b).1, (cut n b).2) := by
  have hle : n ≤ (a ++ b).length := by
    rw [List.length_append]
    omega
  rw [cut_of_le hn hle, List.take_left' ha, List.drop_left' ha]

theorem cut_flatten_append (hn : 0 < n) (h : ∀ a ∈ pieces, a.length = n) (b : List α) :
    cut n (pieces.flatten ++ b) = (pieces ++ (cut n b).1, (cut n b).2) := by
  induction pieces with
  | nil => rfl
  | cons a pieces ih =>
    rw [List.flatten_cons, List.append_assoc, cut_append hn (h a List.mem_cons_self),
      ih fun p hp => h p (List.mem_cons_of_mem a hp)]
    rfl

theorem length_flatten_of_length (h : ∀ a ∈ pieces, a.length = n) :
    pieces.flatten.length = pieces.length * n := by
  induction pieces with
  | nil => simp
  | cons a pieces ih =>
    rw [List.flatten_cons, List.length_append, h a List.mem_cons_self,
      ih fun p hp => h p (List.mem_cons_of_mem a hp), List.length_cons, Nat.succ_mul, Nat.add_comm]

theorem length_eq_cut (n : Nat) (l : List α) :
    (chunksExact n l).length * n + (cut n l).2.length = l.length := by
  have hlength := congrArg List.length (cut_flatten n l)
  rw [List.length_append, length_flatten_of_length fun a => length_of_mem_cut] at hlength
  exact hlength

theorem length_chunksExact (hn : 0 < n) (l : List α) : (chunksExact n l).length = l.length / n := by
  have hlength := length_eq_cut n l
  have hlt := length_rest_lt hn l
  refine (Nat.div_eq_of_lt_le ?_ ?_).symm
  · omega
  · rw [Nat.succ_mul]
    omega

/-- A list of whole pieces has nothing left. -/
theorem rest_eq_nil (hn : 0 < n) (h : n ∣ l.length) : (cut n l).2 = [] := by
  have hlength := length_eq_cut n l
  have hlt := length_rest_lt hn l
  refine List.eq_nil_of_length_eq_zero (Nat.eq_zero_of_dvd_of_lt ?_ hlt)
  rw [← hlength] at h
  exact (Nat.dvd_add_right (Nat.dvd_mul_left n _)).mp h

theorem chunksExact_append (hn : 0 < n) (h : n ∣ a.length) (b : List α) :
    chunksExact n (a ++ b) = chunksExact n a ++ chunksExact n b := by
  have ha := cut_flatten n a
  rw [rest_eq_nil hn h, List.append_nil] at ha
  rw [chunksExact, ← ha, cut_flatten_append hn (fun p => length_of_mem_cut)]
  simp only [ha]
  rfl

end Pieces

/-!
## Joined texts

Texts with a separator between them, when the last one of them grows, and when each one of them does.
-/

namespace Joined

variable {sep a b e : String} {l l' : List String}

/-- The joined texts with one more of them. -/
theorem concat (sep : String) (l : List String) (a : String) :
    sep.intercalate (l ++ [a]) = if l = [] then a else sep.intercalate l ++ sep ++ a := by
  by_cases hl : l = []
  · rw [if_pos hl, hl]
    simp
  · rw [if_neg hl, String.intercalate_append_of_ne_nil hl (by simp), String.intercalate_singleton]

/-- What the last text grows by stands behind them all. -/
theorem concat_append (sep : String) (l : List String) (a b : String) :
    sep.intercalate (l ++ [a ++ b]) = sep.intercalate (l ++ [a]) ++ b := by
  rw [concat, concat]
  split_ifs
  · rfl
  · simp only [String.append_assoc]

/-- Each text has grown at its end. -/
abbrev Grown (l l' : List String) : Prop :=
  List.Forall₂ (fun a b => ∃ e, b = a ++ e) l l'

theorem length_le (sep : String) (h : Grown l l') : (sep.intercalate l).length ≤ (sep.intercalate l').length := by
  induction h with
  | nil => exact Nat.le_refl _
  | cons hab hs ih =>
    obtain ⟨e, rfl⟩ := hab
    cases hs with
    | nil =>
      rw [String.intercalate_singleton, String.intercalate_singleton, String.length_append]
      omega
    | cons _ _ =>
      rw [String.intercalate_cons_cons, String.intercalate_cons_cons]
      simp only [String.length_append]
      omega

/-- The joined texts are the same only if none of them has grown. -/
theorem eq_iff (h : Grown l l') : sep.intercalate l = sep.intercalate l' ↔ l = l' := by
  refine ⟨fun heq => ?_, fun heq => by rw [heq]⟩
  induction h with
  | nil => rfl
  | cons hab hs ih =>
    obtain ⟨e, rfl⟩ := hab
    cases hs with
    | nil =>
      rw [String.intercalate_singleton, String.intercalate_singleton] at heq
      rw [← heq]
    | cons hxy hs =>
      rw [String.intercalate_cons_cons, String.intercalate_cons_cons] at heq
      have hle := length_le sep (.cons hxy hs)
      have hlen := congrArg String.length heq
      simp only [String.length_append] at hlen
      have he : e = "" := String.length_eq_zero_iff.mp (by omega)
      subst he
      rw [String.append_empty] at heq ⊢
      rw [ih ((String.append_right_inj _).mp heq)]

end Joined
