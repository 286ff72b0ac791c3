import Mathlib.Logic.Function.Basic

/-!
# Copies that are written back

Tasks that read a stored value and write what they have read back later, beside the changes of the value
by others. A copy that was taken since the last change is what is stored, so writing it back changes
nothing.
-/

namespace Snapshot

variable {ι κ : Type*}

/-- What is noted of one stored value: how often it was changed, how often it had been changed when each
    task last read it, and what the last change has left (nothing, where it was a deletion). -/
structure Record (ι κ : Type*) where
  changes : Nat
  read : ι → Nat
  last : Option (Option κ)

namespace Record

def start : Record ι κ where
  changes := 0
  read _ := 0
  last := none

/-- A task reads the value. -/
def reads [DecidableEq ι] (r : Record ι κ) (i : ι) : Record ι κ :=
  { r with read := Function.update r.read i r.changes }

def change (r : Record ι κ) (v : Option κ) : Record ι κ :=
  { r with changes := r.changes + 1, last := some v }

/-- The value was not changed since the task has read it. -/
def Current (r : Record ι κ) (i : ι) : Prop := r.read i = r.changes

instance (r : Record ι κ) (i : ι) : Decidable (r.Current i) := by
  unfold Current
  infer_instance

end Record

variable {r : Record ι κ} {stored : Option κ} {copy : ι → Option κ} {i : ι}

/-- The copies that are current are what is stored, and so is what the last change has left. -/
structure Coherent (stored : Option κ) (copy : ι → Option κ) (r : Record ι κ) : Prop where
  le : ∀ i, r.read i ≤ r.changes
  copies : ∀ i v, copy i = some v → r.Current i → stored = some v
  last : ∀ v, r.last = some v → stored = v

theorem Coherent.start (stored : Option κ) :
    Coherent stored (fun _ => none) (.start : Record ι κ) where
  le _ := Nat.le_refl 0
  copies _ _ h := nomatch h
  last _ h := nomatch h

/-- A task reads the value, or finds none. -/
theorem Coherent.reads [DecidableEq ι] (h : Coherent stored copy r) (i : ι) {read : Option κ}
    (hread : ∀ v, read = some v → stored = some v) :
    Coherent stored (Function.update copy i read) (r.reads i) := by
  refine ⟨fun j => ?_, fun j v hv hcurrent => ?_, h.last⟩
  · show Function.update r.read i r.changes j ≤ r.changes
    by_cases hj : j = i
    · subst hj
      exact Nat.le_of_eq (Function.update_self j r.changes r.read)
    · rw [Function.update_of_ne hj]
      exact h.le j
  · by_cases hj : j = i
    · subst hj
      rw [Function.update_self] at hv
      exact hread v hv
    · rw [Function.update_of_ne hj] at hv
      have hsame : (r.reads i).read j = r.read j := Function.update_of_ne hj _ _
      exact h.copies j v hv (hsame.symm.trans hcurrent)

/-- A change. The copies that were taken before it are not current any more. -/
theorem Coherent.change (h : Coherent stored copy r) (v : Option κ) :
    Coherent v copy (r.change v) := by
  refine ⟨fun j => Nat.le_succ_of_le (h.le j), fun j _ _ hcurrent => ?_, fun v' hv' => ?_⟩
  · have hle := h.le j
    have heq : r.read j = r.changes + 1 := hcurrent
    omega
  · exact Option.some.inj hv'

end Snapshot
