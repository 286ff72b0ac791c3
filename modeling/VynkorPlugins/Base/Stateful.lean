import VynkorPlugins.Base.Async

/-!
# Asynchronous functions with a value of their own

An asynchronous function that changes a value and may end in an error, which leaves the value as it is then.
`Ensures` says what it does by a protocol, and has a rule for each way to build such a function.
-/

abbrev Stateful (σ : Type) (E : Type) (R : E → Type) (α : Type) :=
  ExceptT String (StateT σ (Async E R)) α

namespace Stateful

variable {σ E S α β : Type} {R : E → Type}

/-- The result of the function, and its value at the end. -/
def exec (m : Stateful σ E R α) (s : σ) : Async E R (Except String α × σ) := m s

/-- Awaits one effect. -/
def await (e : E) : Stateful σ E R (R e) := fun s => Async.perform e >>= fun r => pure (.ok r, s)

@[simp] theorem exec_pure (a : α) (s : σ) :
    exec (pure a : Stateful σ E R α) s = .done (.ok a, s) := rfl

@[simp] theorem exec_throw (e : String) (s : σ) :
    exec (throw e : Stateful σ E R α) s = .done (.error e, s) := rfl

@[simp] theorem exec_get (s : σ) : exec (get : Stateful σ E R σ) s = .done (.ok s, s) := rfl

@[simp] theorem exec_modify (f : σ → σ) (s : σ) :
    exec (modify f : Stateful σ E R PUnit) s = .done (.ok ⟨⟩, f s) := rfl

@[simp] theorem exec_await (e : E) (s : σ) :
    exec (await e : Stateful σ E R (R e)) s = .call e fun r => .done (.ok r, s) := rfl

theorem exec_bind (m : Stateful σ E R α) (f : α → Stateful σ E R β) (s : σ) :
    exec (m >>= f) s = exec m s >>= fun r =>
      match r.1 with
      | .ok a => exec (f a) r.2
      | .error e => .done (.error e, r.2) := by
  show ((m s).bind fun r => ExceptT.bindCont f r.1 r.2) = (m s).bind _
  congr 1
  funext r
  obtain ⟨r, s'⟩ := r
  cases r with
  | ok a => rfl
  | error e => rfl

/-! ## Rules -/

open Async

variable {P : Protocol E R S} {Q : S → Except String α → σ → Prop} {Q' : S → Except String β → σ → Prop}
  {k : S} {s : σ}

/-- The function asks for what the protocol allows, and `Q` holds of the states and the result at its
    end. -/
def Ensures (P : Protocol E R S) (Q : S → Except String α → σ → Prop) (k : S) (s : σ)
    (m : Stateful σ E R α) : Prop :=
  Obeys P (fun k' r => Q k' r.1 r.2) k (exec m s)

theorem ensures_pure {a : α} (h : Q k (.ok a) s) : Ensures P Q k s (pure a) := h

theorem ensures_throw {e : String} (h : Q k (.error e) s) : Ensures P Q k s (throw e) := h

theorem ensures_get_bind {f : σ → Stateful σ E R β} (h : Ensures P Q' k s (f s)) :
    Ensures P Q' k s (get >>= f) := by
  unfold Ensures
  rw [exec_bind]
  exact h

theorem ensures_modify_bind {g : σ → σ} {f : PUnit → Stateful σ E R β}
    (h : Ensures P Q' k (g s) (f ⟨⟩)) : Ensures P Q' k s (modify g >>= f) := by
  unfold Ensures
  rw [exec_bind]
  exact h

theorem ensures_modify {g : σ → σ} {Q : S → Except String PUnit → σ → Prop} (h : Q k (.ok ⟨⟩) (g s)) :
    Ensures P Q k s (modify g) := h

theorem ensures_await_bind {e : E} {f : R e → Stateful σ E R β} (hallowed : P.allowed k e)
    (h : ∀ r k', P.next k e r k' → Ensures P Q' k' s (f r)) : Ensures P Q' k s (await e >>= f) := by
  unfold Ensures
  rw [exec_bind]
  exact ⟨hallowed, h⟩

/-- A function that ends in an error takes the rest with it. -/
theorem Ensures.bind {m : Stateful σ E R α} {f : α → Stateful σ E R β} (hm : Ensures P Q k s m)
    (hok : ∀ k' s' a, Q k' (.ok a) s' → Ensures P Q' k' s' (f a))
    (herror : ∀ k' s' e, Q k' (.error e) s' → Q' k' (.error e) s') :
    Ensures P Q' k s (m >>= f) := by
  unfold Ensures
  rw [exec_bind]
  refine Obeys.bind hm fun k' r hr => ?_
  obtain ⟨r, s'⟩ := r
  cases r with
  | ok a => exact hok k' s' a hr
  | error e => exact herror k' s' e hr

theorem Ensures.mono {Q₂ : S → Except String α → σ → Prop} {m : Stateful σ E R α}
    (hm : Ensures P Q k s m) (h : ∀ k' r s', Q k' r s' → Q₂ k' r s') : Ensures P Q₂ k s m :=
  Obeys.mono hm fun k' r hr => h k' r.1 r.2 hr

end Stateful
