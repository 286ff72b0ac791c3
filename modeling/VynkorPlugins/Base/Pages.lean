import Mathlib.Data.List.Sort
import Mathlib.Tactic.Linarith

/-!
# Reading page by page

A reader asks for a page, gets with it the cursor of the next one, and goes on until there is none.
Where the rows are in a strict order, a cursor may name the last row that was read: what comes after
that row in the order is what comes behind it in the list.
-/

namespace Pages

variable {κ π α : Type*}

/-- The pages from a cursor on, if the last one is among the first `fuel` pages. -/
def follow (page : κ → Option (π × Option κ)) : Nat → κ → Option (List π)
  | 0, _ => none
  | fuel + 1, c =>
    match page c with
    | none => none
    | some (p, none) => some [p]
    | some (p, some c') => (follow page fuel c').map (p :: ·)

/-- What one page says about the ones after it holds of all of them, and there is a last one if each
    page leaves less to read. -/
theorem follow_total (page : κ → Option (π × Option κ)) (rest : κ → Nat) {I : κ → Prop}
    {Q : κ → List π → Prop}
    (hpage : ∀ c, I c → ∃ p next, page c = some (p, next) ∧ (next = none → Q c [p]) ∧
      ∀ c', next = some c' → I c' ∧ rest c' < rest c ∧ ∀ ps, Q c' ps → Q c (p :: ps))
    {fuel : Nat} {c : κ} (hc : I c) (hfuel : rest c < fuel) :
    ∃ ps, follow page fuel c = some ps ∧ Q c ps := by
  induction fuel generalizing c with
  | zero => omega
  | succ fuel ih =>
    obtain ⟨p, next, hp, hlast, hnext⟩ := hpage c hc
    cases next with
    | none =>
      refine ⟨[p], ?_, hlast rfl⟩
      simp only [follow, hp]
    | some c' =>
      obtain ⟨hc', hless, hQ⟩ := hnext c' rfl
      obtain ⟨ps, hps, hall⟩ := ih hc' (by omega)
      refine ⟨p :: ps, ?_, hQ ps hall⟩
      simp only [follow, hp, hps, Option.map_some]

/-! ## Pages by number -/

/-- Pages that start where the one before them ends. -/
theorem flatMap_pages (l : List α) (limit n : Nat) :
    (List.range n).flatMap (fun i => (l.drop (i * limit)).take limit) = l.take (n * limit) := by
  induction n with
  | zero => rw [List.range_zero, List.flatMap_nil, Nat.zero_mul, List.take_zero]
  | succ n ih =>
    rw [List.range_succ, List.flatMap_append, ih, List.flatMap_singleton, Nat.succ_mul,
      List.take_add]

theorem flatMap_all_pages (l : List α) {limit : Nat} (hlimit : 0 < limit) :
    (List.range l.length).flatMap (fun i => (l.drop (i * limit)).take limit) = l := by
  rw [flatMap_pages, List.take_of_length_le (Nat.le_mul_of_pos_right _ hlimit)]

/-! ## Rows in a strict order -/

variable {lt : α → α → Prop} {l l' : List α}

/-- A strictly ordered list is determined by its members. -/
theorem eq_of_mem_iff (hasymm : ∀ a b, lt a b → ¬ lt b a) (hl : l.Pairwise lt) (hl' : l'.Pairwise lt)
    (h : ∀ a, a ∈ l ↔ a ∈ l') : l = l' := by
  have hne : ∀ {a b : α}, lt a b → a ≠ b := by
    rintro a b hab rfl
    exact hasymm a a hab hab
  have hperm : l.Perm l' :=
    (List.perm_ext_iff_of_nodup (hl.imp hne) (hl'.imp hne)).mpr h
  refine hperm.eq_of_pairwise (fun a b _ _ hab hba => ?_) hl hl'
  exact absurd hba (hasymm a b hab)

/-- What is after the last row of a page in the order is what is behind the page. -/
theorem mem_drop_iff (hasymm : ∀ a b, lt a b → ¬ lt b a) (hl : l.Pairwise lt) {n : Nat} {a : α}
    (ha : (l.take n).getLast? = some a) {b : α} : b ∈ l.drop n ↔ b ∈ l ∧ lt a b := by
  obtain ⟨init, hinit⟩ := List.getLast?_eq_some_iff.mp ha
  have hsplit := List.take_append_drop n l
  rw [hinit, List.append_assoc, List.singleton_append] at hsplit
  rw [← hsplit, List.pairwise_append, List.pairwise_cons] at hl
  obtain ⟨-, ⟨hafter, -⟩, hbefore⟩ := hl
  constructor
  · intro hb
    exact ⟨List.mem_of_mem_drop hb, hafter b hb⟩
  · rintro ⟨hb, hab⟩
    rw [← hsplit, List.mem_append, List.mem_cons] at hb
    rcases hb with hb | rfl | hb
    · exact absurd hab (hasymm b a (hbefore b hb a List.mem_cons_self))
    · exact absurd hab (hasymm b b hab)
    · exact hb

end Pages

/-!
## Feeds of changes

A feed is read page by page from several sources that are in the order of their revisions: each
source gives its first rows, and the page is the first part of what they give together. Everything
below the last revision of such a page is on it. A page is replayed change by change.
-/

namespace Feed

variable {α β : Type*}

section

variable (rev : α → Nat)

theorem rev_le_of_mem_take {l : List α} (hl : l.Pairwise fun a b => rev a ≤ rev b) {n : Nat}
    {a b : α} (ha : a ∈ l.take n) (hb : b ∈ l.drop n) : rev a ≤ rev b := by
  rw [← List.take_append_drop n l, List.pairwise_append] at hl
  exact hl.2.2 a ha b hb

/-- What comes before the last change of a page is on the page. -/
theorem mem_take_of_lt {l : List α} (hl : l.Pairwise fun a b => rev a ≤ rev b) {n : Nat} {a c : α}
    (hc : c ∈ l.take n) (ha : a ∈ l) (hlt : rev a < rev c) : a ∈ l.take n := by
  rw [← List.take_append_drop n l, List.mem_append] at ha
  rcases ha with ha | ha
  · exact ha
  · exact absurd (rev_le_of_mem_take rev hl hc ha) (not_le.mpr hlt)

/-- Fewer than `n` of all the changes come before the last one of a page of `n` changes. -/
theorem countP_lt_of_getLast? {l : List α} (hl : l.Pairwise fun a b => rev a ≤ rev b) {n : Nat} {c : α}
    (hc : (l.take n).getLast? = some c) : l.countP (rev · < rev c) < n := by
  obtain ⟨init, hinit⟩ := List.getLast?_eq_some_iff.mp hc
  have hsplit : l = init ++ c :: l.drop n := by
    rw [← List.singleton_append, ← List.append_assoc, ← hinit, List.take_append_drop]
  have hrest : (c :: l.drop n).countP (rev · < rev c) = 0 := by
    rw [List.countP_eq_zero]
    intro b hb
    rcases List.mem_cons.mp hb with rfl | hb
    · simp
    · have hcb := rev_le_of_mem_take rev hl (List.mem_of_getLast? hc) hb
      simpa using hcb
  have hlen : init.length + 1 ≤ n := by
    have hlength := congrArg List.length hinit
    rw [List.length_append, List.length_singleton] at hlength
    have := List.length_take_le n l
    omega
  calc l.countP (rev · < rev c)
      = init.countP (rev · < rev c) + (c :: l.drop n).countP (rev · < rev c) := by
        rw [← List.countP_append, ← hsplit]
    _ ≤ init.length := by rw [hrest]; exact List.countP_le_length
    _ < n := hlen

/-- A row of a source that comes before the last change of the page is one of the first rows of its
    source: otherwise these rows alone would fill the page. -/
theorem mem_page {source out l : List α} {n : Nat} {a c : α}
    (hsource : source.Pairwise fun a b => rev a ≤ rev b) (hout : (source.take n).Sublist out)
    (hl : l.Pairwise fun a b => rev a ≤ rev b) (hperm : l.Perm out)
    (hc : (l.take n).getLast? = some c) (ha : a ∈ source) (hlt : rev a < rev c) :
    a ∈ l.take n := by
  refine mem_take_of_lt rev hl (List.mem_of_getLast? hc) ?_ hlt
  rw [hperm.mem_iff]
  refine hout.subset ?_
  by_contra hnot
  have hdrop : a ∈ source.drop n := by
    rw [← List.take_append_drop n source, List.mem_append] at ha
    exact ha.resolve_left hnot
  have hfull : (source.take n).length = n := by
    have := List.length_pos_of_mem hdrop
    rw [List.length_drop] at this
    rw [List.length_take]
    omega
  have hall : (source.take n).countP (rev · < rev c) = n := by
    conv_rhs => rw [← hfull]
    rw [List.countP_eq_length]
    intro b hb
    exact decide_eq_true ((rev_le_of_mem_take rev hsource hb hdrop).trans_lt hlt)
  have hle : (source.take n).countP (rev · < rev c) ≤ out.countP (rev · < rev c) := hout.countP_le
  have hless := countP_lt_of_getLast? rev hl hc
  rw [hperm.countP_eq] at hless
  omega

end

/-! ## Replaying -/

/-- What every change of a list keeps is there after all of them. -/
theorem foldl_keep {f : β → α → β} {x : β} {cs : List α} (h : ∀ c ∈ cs, f x c = x) :
    cs.foldl f x = x := by
  induction cs with
  | nil => rfl
  | cons c cs ih =>
    rw [List.foldl_cons, h c List.mem_cons_self]
    exact ih fun c' hc' => h c' (List.mem_cons_of_mem _ hc')

/-- What one change of a list writes and every one keeps is there after all of them. -/
theorem foldl_write {f : β → α → β} {x : β} {cs : List α} (hkeep : ∀ c ∈ cs, f x c = x)
    (hwrite : ∃ c ∈ cs, ∀ r, f r c = x) (r : β) : cs.foldl f r = x := by
  induction cs generalizing r with
  | nil =>
    obtain ⟨c, hc, -⟩ := hwrite
    cases hc
  | cons c cs ih =>
    rw [List.foldl_cons]
    have hkeep' : ∀ c' ∈ cs, f x c' = x := fun c' hc' => hkeep c' (List.mem_cons_of_mem _ hc')
    obtain ⟨c', hc', hw⟩ := hwrite
    rcases List.mem_cons.mp hc' with rfl | hc'
    · rw [hw]
      exact foldl_keep hkeep'
    · exact ih hkeep' ⟨c', hc', hw⟩ _

end Feed
