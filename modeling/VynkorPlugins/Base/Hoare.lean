import Mathlib.Logic.Basic

/-!
# Triples

Pre- and postconditions of computations over a state that may end in an error. An error keeps the state
that it was reached in.
-/

namespace Hoare

abbrev Comp (σ ε α : Type) := ExceptT ε (StateM σ) α

variable {σ ε ε' α β : Type}

/-- The result of a computation as a value. -/
def attempt (m : Comp σ ε α) : Comp σ ε' (Except ε α) := fun s => (.ok (m s).1, (m s).2)

/-- A computation whose errors are told in another way. -/
def mapErr (m : Comp σ ε α) (f : ε → ε') : Comp σ ε' α := fun s => ((m s).1.mapError f, (m s).2)

/-- From a state in `P` the computation ends with a result in `Q`, or with an error in `E`. -/
def Triple (P : σ → Prop) (m : Comp σ ε α) (Q : α → σ → Prop) (E : ε → σ → Prop) : Prop :=
  ∀ s, P s →
    match m s with
    | (.ok a, s') => Q a s'
    | (.error e, s') => E e s'

variable {P P' F : σ → Prop} {E E' : ε → σ → Prop} {Q Q' : α → σ → Prop} {R : β → σ → Prop}

namespace Triple

theorem intro {m : Comp σ ε α} (hok : ∀ s a s', P s → m s = (.ok a, s') → Q a s')
    (herror : ∀ s e s', P s → m s = (.error e, s') → E e s') : Triple P m Q E := by
  intro s hs
  split
  · exact hok _ _ _ hs ‹_›
  · exact herror _ _ _ hs ‹_›

theorem ok {m : Comp σ ε α} (h : Triple P m Q E) {s s' : σ} {a : α} (hs : P s)
    (hm : m s = (.ok a, s')) : Q a s' := by
  have hQ := h s hs
  rw [hm] at hQ
  exact hQ

theorem error {m : Comp σ ε α} (h : Triple P m Q E) {s s' : σ} {e : ε} (hs : P s)
    (hm : m s = (.error e, s')) : E e s' := by
  have hE := h s hs
  rw [hm] at hE
  exact hE

/-- What holds after any result and any error holds in the end. -/
theorem final {m : Comp σ ε α} (h : Triple P m (fun _ => F) fun _ => F) {s : σ} (hs : P s) :
    F (m s).2 := by
  cases hm : m s with
  | mk r s' =>
    cases r with
    | ok a => exact h.ok hs hm
    | error e => exact h.error hs hm

theorem pure {a : α} (h : ∀ s, P s → Q a s) : Triple P (pure a : Comp σ ε α) Q E :=
  fun s hs => h s hs

theorem throw {e : ε} (h : ∀ s, P s → E e s) : Triple P (throw e : Comp σ ε α) Q E :=
  fun s hs => h s hs

theorem throw_bind {e : ε} {f : β → Comp σ ε α} (h : ∀ s, P s → E e s) :
    Triple P ((MonadExcept.throw e : Comp σ ε β) >>= f) Q E :=
  fun s hs => h s hs

theorem bind {m : Comp σ ε β} {f : β → Comp σ ε α} (hm : Triple P m R E)
    (hf : ∀ b, Triple (R b) (f b) Q E) : Triple P (m >>= f) Q E := by
  intro s hs
  have hR := hm s hs
  change match ExceptT.bindCont f (m s).1 (m s).2 with
    | (.ok a, s') => Q a s'
    | (.error e, s') => E e s'
  cases hms : m s with
  | mk r s' =>
    rw [hms] at hR
    cases r with
    | ok b => exact hf b s' hR
    | error e => exact hR

/-- A computation that goes on unless a condition holds. -/
theorem guard {c : Prop} [Decidable c] {e : ε} {f : PUnit → Comp σ ε α}
    (herror : c → ∀ s, P s → E e s) (h : ¬ c → Triple P (f ⟨⟩) Q E) :
    Triple P (if c then (MonadExcept.throw e >>= f) else f ⟨⟩) Q E := by
  by_cases hc : c
  · rw [if_pos hc]
    exact (throw (Q := fun _ _ => False) (herror hc)).bind fun _ _ hs => hs.elim
  · rw [if_neg hc]
    exact h hc

theorem weaken {m : Comp σ ε α} (h : Triple P m Q E) (hP : ∀ s, P' s → P s)
    (hQ : ∀ a s, Q a s → Q' a s) (hE : ∀ e s, E e s → E' e s) : Triple P' m Q' E' :=
  .intro (fun _ _ _ hs hm => hQ _ _ (h.ok (hP _ hs) hm))
    (fun _ _ _ hs hm => hE _ _ (h.error (hP _ hs) hm))

theorem pre {m : Comp σ ε α} (h : Triple P m Q E) (hP : ∀ s, P' s → P s) : Triple P' m Q E :=
  h.weaken hP (fun _ _ hQ => hQ) fun _ _ hE => hE

/-- A fact that is no matter of the state. -/
theorem assume {p : Prop} {m : Comp σ ε α} (h : p → Triple P m Q E) :
    Triple (fun s => P s ∧ p) m Q E :=
  fun s hs => h hs.2 s hs.1

theorem mapErr {E : ε' → σ → Prop} {m : Comp σ ε α} {f : ε → ε'}
    (h : Triple P m Q fun e => E (f e)) : Triple P (Hoare.mapErr m f) Q E := by
  intro s hs
  have hQ := h s hs
  change match ((m s).1.mapError f, (m s).2) with
    | (.ok a, s') => Q a s'
    | (.error e, s') => E e s'
  cases hms : m s with
  | mk r s' =>
    rw [hms] at hQ
    cases r <;> exact hQ

theorem attempt {E' : ε' → σ → Prop} {m : Comp σ ε α} (h : Triple P m Q E) :
    Triple P (Hoare.attempt m : Comp σ ε' (Except ε α))
      (fun r s => match r with
        | .ok a => Q a s
        | .error e => E e s) E' := by
  intro s hs
  have hQ := h s hs
  change match (m s).1 with
    | .ok a => Q a (m s).2
    | .error e => E e (m s).2
  cases hms : m s with
  | mk r s' =>
    rw [hms] at hQ
    cases r <;> exact hQ

theorem mapErr_andThen {m : Comp σ ε β} {g : ε → ε'} {f : β → Comp σ ε' α} {Q : α → σ → Prop}
    (hm : Triple P m R E) (hE : ∀ e s, E e s → F s) (hf : ∀ b, Triple (R b) (f b) Q fun _ => F) :
    Triple P (Hoare.mapErr m g >>= f) Q fun _ => F :=
  (mapErr (E := fun _ => F) (hm.weaken (fun _ hP => hP) (fun _ _ hR => hR) hE)).bind hf

/-- A computation that goes on with the result of another one, whichever it is. -/
theorem attempt_bind {E' : ε' → σ → Prop} {m : Comp σ ε β} {f : Except ε β → Comp σ ε' α}
    {Q : α → σ → Prop} (hm : Triple P m R E) (hok : ∀ b, Triple (R b) (f (.ok b)) Q E')
    (herror : ∀ e, Triple (E e) (f (.error e)) Q E') : Triple P (Hoare.attempt m >>= f) Q E' := by
  refine hm.attempt.bind fun r => ?_
  cases r with
  | ok b => exact hok b
  | error e => exact herror e

/-- What each round of a loop keeps holds after the loop. -/
theorem forM {f : β → Comp σ ε PUnit} {xs : List β}
    (hf : ∀ b ∈ xs, Triple P (f b) (fun _ => P) E) : Triple P (xs.forM f) (fun _ => P) E := by
  induction xs with
  | nil => exact .pure fun _ hs => hs
  | cons b xs ih =>
    change Triple P (f b >>= fun _ => xs.forM f) _ _
    exact (hf b (by simp)).bind fun _ => ih fun b' hb' => hf b' (by simp [hb'])

end Triple

end Hoare
