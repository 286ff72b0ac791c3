import Mathlib.Data.List.Basic
import Mathlib.Logic.Function.Basic

/-!
# Names that are looked up before they are given

Rows under ids, each with a name that no other row is to have. A task that wants a name lists the ids,
reads the rows under them and, where none of these has the name, draws an id and stores a row of its
own. Other tasks move in between, so that a name may be given twice. A ledger keeps who has drawn which
id, what was stored under it, and who seeks which name.
-/

/-- How far a task is that seeks a name. -/
inductive Seek (I ν : Type) where
  | idle
  | listed (name : ν) (ids : List I)
  | missing (name : ν)
  | drawn (name : ν) (id : I)

/-- What is stored under an id keeps its key, from which its name can be read. -/
structure Ledger (ι I κ ν : Type) where
  owner : I → Option ι
  filed : I → Option κ
  seekers : ν → List ι

namespace Seek

variable {I ν ρ : Type}

/-- The name that is sought. -/
def wants : Seek I ν → Option ν
  | .idle => none
  | .listed n _ => some n
  | .missing n => some n
  | .drawn n _ => some n

/-- The rows under the listed ids are read. -/
def read [DecidableEq ν] (names : List ν) : Seek I ν → Seek I ν
  | .listed n _ => if n ∈ names then .idle else .missing n
  | s => s

/-- An id is drawn, where nothing was found. -/
def draw (id : I) : Seek I ν → Seek I ν
  | .listed n [] => .drawn n id
  | .missing n => .drawn n id
  | s => s

/-- What a search has found out about the rows. -/
def Holds (rows : I → Option ρ) (name : ρ → ν) : Seek I ν → Prop
  | .idle => True
  | .listed n ids => ∀ id r, rows id = some r → name r = n → id ∈ ids
  | .missing n => ∀ id r, rows id = some r → name r ≠ n
  | .drawn n _ => ∀ id r, rows id = some r → name r ≠ n

variable {rows rows' : I → Option ρ} {name : ρ → ν} {s : Seek I ν}

/-- What is found out stays, as long as no row comes with the name. -/
theorem Holds.mono (h : s.Holds rows name)
    (hrows : ∀ id r', rows' id = some r' → s.wants = some (name r') →
      ∃ r, rows id = some r ∧ name r = name r') : s.Holds rows' name := by
  cases s with
  | idle => trivial
  | listed n ids =>
    rintro id r' hr' rfl
    obtain ⟨r, hr, hname⟩ := hrows id r' hr' rfl
    exact h id r hr hname
  | missing n =>
    rintro id r' hr' rfl
    obtain ⟨r, hr, hname⟩ := hrows id r' hr' rfl
    exact h id r hr hname
  | drawn n id' =>
    rintro id r' hr' rfl
    obtain ⟨r, hr, hname⟩ := hrows id r' hr' rfl
    exact h id r hr hname

theorem Holds.draw (h : s.Holds rows name) (id : I) : (s.draw id).Holds rows name := by
  cases s with
  | listed n ids =>
    cases ids with
    | nil => exact fun id r hr hname => List.not_mem_nil (h id r hr hname)
    | cons id ids => exact h
  | missing n => exact h
  | _ => exact h

theorem wants_draw {id : I} : (s.draw id).wants = s.wants := by
  cases s with
  | listed n ids => cases ids <;> rfl
  | _ => rfl

end Seek

namespace Ledger

variable {ι I κ ν : Type} [DecidableEq ι] [DecidableEq I] [DecidableEq ν] (l : Ledger ι I κ ν)

def empty : Ledger ι I κ ν where
  owner _ := none
  filed _ := none
  seekers _ := []

/-- A task begins to seek a name. -/
def seek (i : ι) (n : ν) : Ledger ι I κ ν :=
  { l with seekers := Function.update l.seekers n (i :: l.seekers n) }

/-- A task has found or given the name. -/
def leave (i : ι) (n : ν) : Ledger ι I κ ν :=
  { l with seekers := Function.update l.seekers n ((l.seekers n).erase i) }

def draw (i : ι) (id : I) : Ledger ι I κ ν :=
  { l with owner := Function.update l.owner id (some i) }

/-- A row is stored. -/
def file (id : I) (k : κ) : Ledger ι I κ ν :=
  { l with filed := Function.update l.filed id (some k) }

end Ledger

/-! ## The rows, the ledger and the searches -/

section

variable {ι I κ ν ρ : Type} {key : ρ → κ} {name : κ → ν} {mk : Nat → I} {rows : I → Option ρ} {next : Nat}
  {l : Ledger ι I κ ν} {g : ι → Seek I ν}

/-- No two rows have one name, and the searches know what they have found out. -/
structure Shelved (key : ρ → κ) (name : κ → ν) (mk : Nat → I) (rows : I → Option ρ) (next : Nat)
    (l : Ledger ι I κ ν) (g : ι → Seek I ν) : Prop where
  fresh : ∀ n, next < n → l.owner (mk n) = none
  owned : ∀ id, l.filed id ≠ none → l.owner id ≠ none
  filed : ∀ id r, rows id = some r → l.filed id = some (key r)
  distinct : ∀ id id' r r', rows id = some r → rows id' = some r' →
    name (key r) = name (key r') → id = id'
  holds : ∀ i, (g i).Holds rows fun r => name (key r)
  seeks : ∀ i n, (g i).wants = some n → i ∈ l.seekers n
  drawn : ∀ i n id, g i = .drawn n id → l.owner id = some i ∧ l.filed id = none

namespace Shelved

theorem start : Shelved key name mk (fun _ => none) next (.empty : Ledger ι I κ ν) fun _ => .idle where
  fresh _ _ := rfl
  owned _ h := absurd rfl h
  filed _ _ h := nomatch h
  distinct _ _ _ _ h := nomatch h
  holds _ := trivial
  seeks _ _ h := nomatch h
  drawn _ _ _ h := nomatch h

/-- A task begins to seek a name, and lists the ids of all rows. -/
theorem list [DecidableEq ι] [DecidableEq ν] (h : Shelved key name mk rows next l g) (i : ι) {n : ν} {ids : List I}
    (hids : ∀ id r, rows id = some r → id ∈ ids) :
    Shelved key name mk rows next (l.seek i n) (Function.update g i (.listed n ids)) where
  fresh := h.fresh
  owned := h.owned
  filed := h.filed
  distinct := h.distinct
  holds j := by
    by_cases hj : j = i
    · subst hj
      rw [Function.update_self]
      exact fun id r hr _ => hids id r hr
    · rw [Function.update_of_ne hj]
      exact h.holds j
  seeks j n' hn := by
    show j ∈ Function.update l.seekers n (i :: l.seekers n) n'
    by_cases hj : j = i
    · subst hj
      rw [Function.update_self] at hn
      obtain rfl := Option.some.inj hn
      rw [Function.update_self]
      exact List.mem_cons_self
    · rw [Function.update_of_ne hj] at hn
      have hmem := h.seeks j n' hn
      by_cases hname : n' = n
      · subst hname
        rw [Function.update_self]
        exact List.mem_cons_of_mem _ hmem
      · rwa [Function.update_of_ne hname]
  drawn j n' id hd := by
    by_cases hj : j = i
    · subst hj
      rw [Function.update_self] at hd
      cases hd
    · rw [Function.update_of_ne hj] at hd
      exact h.drawn j n' id hd

/-- A task does not seek a name any more. -/
theorem leave [DecidableEq ι] [DecidableEq ν] (h : Shelved key name mk rows next l g) (i : ι) (n : ν) :
    Shelved key name mk rows next (l.leave i n) (Function.update g i .idle) where
  fresh := h.fresh
  owned := h.owned
  filed := h.filed
  distinct := h.distinct
  holds j := by
    by_cases hj : j = i
    · subst hj
      rw [Function.update_self]
      trivial
    · rw [Function.update_of_ne hj]
      exact h.holds j
  seeks j n' hn := by
    show j ∈ Function.update l.seekers n ((l.seekers n).erase i) n'
    by_cases hj : j = i
    · subst hj
      rw [Function.update_self] at hn
      cases hn
    · rw [Function.update_of_ne hj] at hn
      have hmem := h.seeks j n' hn
      by_cases hname : n' = n
      · subst hname
        rw [Function.update_self]
        exact (List.mem_erase_of_ne hj).mpr hmem
      · rwa [Function.update_of_ne hname]
  drawn j n' id hd := by
    by_cases hj : j = i
    · subst hj
      rw [Function.update_self] at hd
      cases hd
    · rw [Function.update_of_ne hj] at hd
      exact h.drawn j n' id hd

/-- A task learns that no row has the name. -/
theorem miss [DecidableEq ι] (h : Shelved key name mk rows next l g) (i : ι) {n : ν} {ids : List I}
    (hg : g i = .listed n ids)
    (hnone : ∀ id r, rows id = some r → id ∈ ids → name (key r) ≠ n) :
    Shelved key name mk rows next l (Function.update g i (.missing n)) where
  fresh := h.fresh
  owned := h.owned
  filed := h.filed
  distinct := h.distinct
  holds j := by
    by_cases hj : j = i
    · subst hj
      have hlisted := h.holds j
      rw [hg] at hlisted
      rw [Function.update_self]
      exact fun id r hr hname => hnone id r hr (hlisted id r hr hname) hname
    · rw [Function.update_of_ne hj]
      exact h.holds j
  seeks j n' hn := by
    by_cases hj : j = i
    · subst hj
      rw [Function.update_self] at hn
      exact h.seeks j n' (by rw [hg]; exact hn)
    · rw [Function.update_of_ne hj] at hn
      exact h.seeks j n' hn
  drawn j n' id hd := by
    by_cases hj : j = i
    · subst hj
      rw [Function.update_self] at hd
      cases hd
    · rw [Function.update_of_ne hj] at hd
      exact h.drawn j n' id hd

/-- A task draws the next id. -/
theorem draw [DecidableEq ι] [DecidableEq I] (h : Shelved key name mk rows next l g)
    (hmk : Function.Injective mk) (i : ι)
    (hg : ∀ n id, g i ≠ .drawn n id) :
    Shelved key name mk rows (next + 1) (l.draw i (mk (next + 1)))
      (Function.update g i ((g i).draw (mk (next + 1)))) where
  fresh n hn := by
    have hne : mk n ≠ mk (next + 1) := fun heq => by
      have := hmk heq
      omega
    show Function.update l.owner _ _ (mk n) = none
    rw [Function.update_of_ne hne]
    exact h.fresh n (by omega)
  owned id hid := by
    show Function.update l.owner _ _ id ≠ none
    by_cases heq : id = mk (next + 1)
    · subst heq
      rw [Function.update_self]
      nofun
    · rw [Function.update_of_ne heq]
      exact h.owned id hid
  filed := h.filed
  distinct := h.distinct
  holds j := by
    by_cases hj : j = i
    · subst hj
      rw [Function.update_self]
      exact (h.holds j).draw _
    · rw [Function.update_of_ne hj]
      exact h.holds j
  seeks j n hn := by
    by_cases hj : j = i
    · subst hj
      rw [Function.update_self, Seek.wants_draw] at hn
      exact h.seeks j n hn
    · rw [Function.update_of_ne hj] at hn
      exact h.seeks j n hn
  drawn j n id hd := by
    have hfresh : l.owner (mk (next + 1)) = none := h.fresh _ (Nat.lt_succ_self _)
    show Function.update l.owner _ _ id = some j ∧ l.filed id = none
    by_cases hj : j = i
    · subst hj
      rw [Function.update_self] at hd
      obtain rfl : id = mk (next + 1) := by
        cases hs : g j with
        | idle => rw [hs] at hd; cases hd
        | listed n' ids =>
          rw [hs] at hd
          cases ids with
          | nil => cases hd; rfl
          | cons _ _ => cases hd
        | missing n' => rw [hs] at hd; cases hd; rfl
        | drawn n' id' => exact absurd hs (hg n' id')
      rw [Function.update_self]
      refine ⟨rfl, ?_⟩
      by_contra hfiled
      exact h.owned _ hfiled hfresh
    · rw [Function.update_of_ne hj] at hd
      obtain ⟨howner, hfiled⟩ := h.drawn j n id hd
      have hne : id ≠ mk (next + 1) := by
        rintro rfl
        rw [hfresh] at howner
        cases howner
      rw [Function.update_of_ne hne]
      exact ⟨howner, hfiled⟩

/-- A task stores its row, and no other one seeks the name. -/
theorem store [DecidableEq ι] [DecidableEq I] [DecidableEq ν]
    (h : Shelved key name mk rows next l g) (i : ι) {id : I} {r : ρ}
    (hg : g i = .drawn (name (key r)) id) (halone : ∀ j ∈ l.seekers (name (key r)), j = i) :
    Shelved key name mk (Function.update rows id (some r)) next
      ((l.file id (key r)).leave i (name (key r))) (Function.update g i .idle) := by
  obtain ⟨howner, hnew⟩ := h.drawn i _ id hg
  have hmissing := h.holds i
  rw [hg] at hmissing
  have hcases : ∀ id' r', Function.update rows id (some r) id' = some r' →
      id' = id ∧ r' = r ∨ id' ≠ id ∧ rows id' = some r' := by
    intro id' r' hr'
    by_cases hid : id' = id
    · subst hid
      rw [Function.update_self] at hr'
      exact .inl ⟨rfl, (Option.some.inj hr').symm⟩
    · rw [Function.update_of_ne hid] at hr'
      exact .inr ⟨hid, hr'⟩
  have hleft := h.leave i (name (key r))
  refine { hleft with owned := ?_, filed := ?_, distinct := ?_, holds := ?_, drawn := ?_ }
  · intro id' hid'
    by_cases hid : id' = id
    · subst hid
      show l.owner id' ≠ none
      rw [howner]
      nofun
    · refine h.owned id' ?_
      have hfiled : Function.update l.filed id (some (key r)) id' ≠ none := hid'
      rwa [Function.update_of_ne hid] at hfiled
  · intro id' r' hr'
    show Function.update l.filed id (some (key r)) id' = some (key r')
    rcases hcases id' r' hr' with ⟨rfl, rfl⟩ | ⟨hid, hr'⟩
    · rw [Function.update_self]
    · rw [Function.update_of_ne hid]
      exact h.filed id' r' hr'
  · intro id₁ id₂ r₁ r₂ h₁ h₂ hname
    rcases hcases id₁ r₁ h₁ with ⟨rfl, rfl⟩ | ⟨-, hold₁⟩
    · rcases hcases id₂ r₂ h₂ with ⟨rfl, rfl⟩ | ⟨-, hold₂⟩
      · rfl
      · exact absurd hname.symm (hmissing id₂ r₂ hold₂)
    · rcases hcases id₂ r₂ h₂ with ⟨rfl, rfl⟩ | ⟨-, hold₂⟩
      · exact absurd hname (hmissing id₁ r₁ hold₁)
      · exact h.distinct id₁ id₂ r₁ r₂ hold₁ hold₂ hname
  · intro j
    by_cases hj : j = i
    · subst hj
      rw [Function.update_self]
      trivial
    · rw [Function.update_of_ne hj]
      refine (h.holds j).mono fun id' r' hr' hwants => ?_
      rcases hcases id' r' hr' with ⟨rfl, rfl⟩ | ⟨-, hr'⟩
      · exact absurd (halone j (h.seeks j _ hwants)) hj
      · exact ⟨r', hr', rfl⟩
  · intro j n id' hd
    by_cases hj : j = i
    · subst hj
      rw [Function.update_self] at hd
      cases hd
    · rw [Function.update_of_ne hj] at hd
      obtain ⟨howner', hfiled'⟩ := h.drawn j n id' hd
      have hne : id' ≠ id := by
        rintro rfl
        rw [howner] at howner'
        exact hj (Option.some.inj howner').symm
      refine ⟨howner', ?_⟩
      show Function.update l.filed id (some (key r)) id' = none
      rw [Function.update_of_ne hne]
      exact hfiled'

/-- Rows go, or are replaced by others with their keys. -/
theorem shrink {rows' : I → Option ρ} (h : Shelved key name mk rows next l g)
    (hrows : ∀ id r', rows' id = some r' → ∃ r, rows id = some r ∧ key r = key r') :
    Shelved key name mk rows' next l g where
  fresh := h.fresh
  owned := h.owned
  filed id r' hr' := by
    obtain ⟨r, hr, hkey⟩ := hrows id r' hr'
    rw [h.filed id r hr, hkey]
  distinct id₁ id₂ r₁ r₂ h₁ h₂ hname := by
    obtain ⟨r₁', h₁', hkey₁⟩ := hrows id₁ r₁ h₁
    obtain ⟨r₂', h₂', hkey₂⟩ := hrows id₂ r₂ h₂
    exact h.distinct id₁ id₂ r₁' r₂' h₁' h₂' (by rw [hkey₁, hkey₂, hname])
  holds i := by
    refine (h.holds i).mono fun id r' hr' _ => ?_
    obtain ⟨r, hr, hkey⟩ := hrows id r' hr'
    exact ⟨r, hr, by rw [hkey]⟩
  seeks := h.seeks
  drawn := h.drawn

end Shelved

end
