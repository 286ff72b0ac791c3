import Mathlib.Data.List.Basic
import Mathlib.Logic.Function.Basic
import Mathlib.Tactic.Linarith

/-!
# Logs with consecutive versions

A state that changes by the entries of a log, each of which carries the version after it, and the
replicas that follow the log from afar.
-/

namespace VersionedLog

variable {S D M ι : Type*} {apply : S → D → S} {version : D → ℕ}

/-- The entries take one state and version to another one, and carry the versions in between
    without a gap. -/
inductive Extends (apply : S → D → S) (version : D → ℕ) : S × ℕ → List D → S × ℕ → Prop
  | nil (a) : Extends apply version a [] a
  | cons {a b : S × ℕ} {d : D} {ds : List D} (hd : version d = a.2 + 1)
      (h : Extends apply version (apply a.1 d, a.2 + 1) ds b) : Extends apply version a (d :: ds) b

theorem Extends.append {a b c : S × ℕ} {ds es : List D} (h : Extends apply version a ds b)
    (h' : Extends apply version b es c) : Extends apply version a (ds ++ es) c := by
  induction h with
  | nil => exact h'
  | cons hd _ ih => exact .cons hd (ih h')

theorem Extends.single {a : S × ℕ} {d : D} (hd : version d = a.2 + 1) :
    Extends apply version a [d] (apply a.1 d, a.2 + 1) :=
  .cons hd (.nil _)

/-- The entries carry exactly the versions between the two ends, and replaying them gives the
    later state. -/
theorem extends_iff {a b : S × ℕ} {ds : List D} :
    Extends apply version a ds b ↔
      ds.map version = List.range' (a.2 + 1) ds.length ∧ b.2 = a.2 + ds.length ∧
        ds.foldl apply a.1 = b.1 := by
  constructor
  · intro h
    induction h with
    | nil => simp
    | cons hd _ ih =>
      obtain ⟨h1, h2, h3⟩ := ih
      refine ⟨?_, ?_, ?_⟩
      · simp [List.range'_succ, hd, h1]
      · rw [h2, List.length_cons]; omega
      · exact h3
  · rintro ⟨h1, h2, h3⟩
    induction ds generalizing a with
    | nil =>
      have hab : a = b := Prod.ext h3 (by simpa using h2.symm)
      exact hab ▸ .nil a
    | cons d ds ih =>
      rw [List.map_cons, List.length_cons, List.range'_succ, List.cons.injEq] at h1
      refine .cons h1.1 (ih h1.2 ?_ h3)
      rw [h2, List.length_cons]; omega

/-- The versions of the entries lie above the earlier state's and not above the later one's. -/
theorem Extends.version_bounds {a b : S × ℕ} {ds : List D} (h : Extends apply version a ds b) :
    ∀ d ∈ ds, a.2 < version d ∧ version d ≤ b.2 := by
  obtain ⟨h1, h2, _⟩ := extends_iff.1 h
  intro d hd
  have hv : version d ∈ List.range' (a.2 + 1) ds.length := h1 ▸ List.mem_map_of_mem hd
  rw [List.mem_range'_1] at hv
  omega

theorem Extends.pairwise {a b : S × ℕ} {ds : List D} (h : Extends apply version a ds b) :
    ds.Pairwise (version · < version ·) := by
  rw [← List.pairwise_map (R := (· < ·)), (extends_iff.1 h).1]
  exact List.pairwise_lt_range'

theorem Extends.tail {a b : S × ℕ} {d : D} {ds : List D}
    (h : Extends apply version a (d :: ds) b) :
    version d = a.2 + 1 ∧ Extends apply version (apply a.1 d, a.2 + 1) ds b := by
  cases h with
  | cons hd h => exact ⟨hd, h⟩

/-! ## Entries waiting in queues -/

/-- The entries of `pending` wait in queues: each one in exactly one queue, and each queue in the
    order of the versions. -/
structure Queued (version : D → ℕ) (pending : List D) (queue : ι → List D) : Prop where
  mem_iff : ∀ d, d ∈ pending ↔ ∃ i, d ∈ queue i
  sorted : ∀ i, (queue i).Pairwise (version · < version ·)
  disjoint : ∀ i j, i ≠ j → ∀ d ∈ queue i, ∀ d' ∈ queue j, version d ≠ version d'

variable [DecidableEq ι]

/-- Later entries that join an empty queue. -/
theorem Queued.push {pending ds : List D} {queue : ι → List D} {i : ι}
    (h : Queued version pending queue) (hi : queue i = [])
    (hds : ds.Pairwise (version · < version ·))
    (hlt : ∀ d ∈ pending, ∀ d' ∈ ds, version d < version d') :
    Queued version (pending ++ ds) (Function.update queue i ds) := by
  have hmem : ∀ j d, j ≠ i → d ∈ Function.update queue i ds j → d ∈ pending := by
    intro j d hj hd
    rw [Function.update_of_ne hj] at hd
    exact (h.mem_iff d).mpr ⟨j, hd⟩
  refine ⟨fun d => ?_, fun j => ?_, fun j k hjk d hd d' hd' => ?_⟩
  · rw [List.mem_append, h.mem_iff]
    constructor
    · rintro (⟨j, hj⟩ | hd)
      · have hji : j ≠ i := by rintro rfl; simp [hi] at hj
        exact ⟨j, by rwa [Function.update_of_ne hji]⟩
      · exact ⟨i, by rwa [Function.update_self]⟩
    · rintro ⟨j, hj⟩
      by_cases hji : j = i
      · subst hji; rw [Function.update_self] at hj; exact .inr hj
      · rw [Function.update_of_ne hji] at hj; exact .inl ⟨j, hj⟩
  · by_cases hji : j = i
    · subst hji; rw [Function.update_self]; exact hds
    · rw [Function.update_of_ne hji]; exact h.sorted j
  · by_cases hji : j = i
    · subst hji
      rw [Function.update_self] at hd
      exact (hlt d' (hmem k d' hjk.symm hd') d hd).ne'
    · by_cases hki : k = i
      · subst hki
        rw [Function.update_self] at hd'
        exact (hlt d (hmem j d hji hd) d' hd').ne
      · rw [Function.update_of_ne hji] at hd
        rw [Function.update_of_ne hki] at hd'
        exact h.disjoint j k hjk d hd d' hd'

/-- The earliest of all the entries leaves its queue: it is the head of those that wait. -/
theorem Queued.pop {pending rest : List D} {queue : ι → List D} {i : ι} {d : D}
    (h : Queued version pending queue) (hp : pending.Pairwise (version · < version ·))
    (hi : queue i = d :: rest) (hmin : ∀ j, ∀ d' ∈ queue j, version d ≤ version d') :
    ∃ pending', pending = d :: pending' ∧ Queued version pending' (Function.update queue i rest) := by
  have hd : d ∈ pending := (h.mem_iff d).mpr ⟨i, by simp [hi]⟩
  obtain ⟨e, pending', rfl⟩ := List.exists_cons_of_ne_nil (List.ne_nil_of_mem hd)
  obtain ⟨hlt, -⟩ := List.pairwise_cons.mp hp
  -- the head of the waiting entries has the least version
  have hed : e = d := by
    obtain ⟨j, hj⟩ := (h.mem_iff e).mp (by simp)
    have hle := hmin j e hj
    rcases List.mem_cons.mp hd with hd | hd
    · exact hd.symm
    · have := hlt d hd; omega
  subst hed
  have hrest : ∀ d' ∈ rest, version e < version d' :=
    (List.pairwise_cons.mp (hi ▸ h.sorted i)).1
  refine ⟨pending', rfl, fun d' => ?_, fun j => ?_, fun j k hjk a ha b hb => ?_⟩
  · constructor
    · intro hd'
      obtain ⟨j, hj⟩ := (h.mem_iff d').mp (List.mem_cons_of_mem e hd')
      refine ⟨j, ?_⟩
      by_cases hji : j = i
      · subst hji
        rw [hi] at hj
        rw [Function.update_self]
        rcases List.mem_cons.mp hj with rfl | hj
        · exact absurd (hlt d' hd') (lt_irrefl _)
        · exact hj
      · rwa [Function.update_of_ne hji]
    · rintro ⟨j, hj⟩
      by_cases hji : j = i
      · subst hji
        rw [Function.update_self] at hj
        rcases List.mem_cons.mp ((h.mem_iff d').mpr ⟨j, by rw [hi]; exact .tail e hj⟩) with rfl | hd'
        · exact absurd (hrest d' hj) (lt_irrefl _)
        · exact hd'
      · rw [Function.update_of_ne hji] at hj
        rcases List.mem_cons.mp ((h.mem_iff d').mpr ⟨j, hj⟩) with rfl | hd'
        · exact absurd rfl (h.disjoint i j (Ne.symm hji) d' (by simp [hi]) d' hj)
        · exact hd'
  · by_cases hji : j = i
    · subst hji
      rw [Function.update_self]
      exact (List.pairwise_cons.mp (hi ▸ h.sorted j)).2
    · rw [Function.update_of_ne hji]; exact h.sorted j
  · have hsub : ∀ j x, x ∈ Function.update queue i rest j → x ∈ queue j := by
      intro j x hx
      by_cases hji : j = i
      · subst hji; rw [Function.update_self] at hx; rw [hi]; exact .tail e hx
      · rwa [Function.update_of_ne hji] at hx
    exact h.disjoint j k hjk a (hsub j a ha) b (hsub k b hb)

end VersionedLog
