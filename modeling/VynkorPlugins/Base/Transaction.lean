import Mathlib.Logic.Basic

/-!
# Transactions of a store

A function of a plugin that works on its database: an error does not undo what was committed before
it, and a transaction that fails leaves the store as it was.
-/

/-- The statements of one transaction over a store: an error abandons it. -/
abbrev Tx (σ : Type) (α : Type) := StateT σ (Except String) α

/-- A computation over a store that may end in an error. -/
abbrev Db (σ : Type) (α : Type) := ExceptT String (StateM σ) α

namespace Tx

variable {σ α β : Type}

/-- The result of the statements of a transaction, and the store they lead to. -/
def exec (m : Tx σ α) (s : σ) : Except String (α × σ) :=
  m s

@[simp] theorem exec_pure (a : α) (s : σ) : exec (pure a : Tx σ α) s = .ok (a, s) := rfl

@[simp] theorem exec_throw (e : String) (s : σ) : exec (throw e : Tx σ α) s = .error e := rfl

@[simp] theorem exec_get (s : σ) : exec (get : Tx σ σ) s = .ok (s, s) := rfl

@[simp] theorem exec_set (s' s : σ) : exec (set s' : Tx σ PUnit) s = .ok (⟨⟩, s') := rfl

@[simp] theorem exec_modify (f : σ → σ) (s : σ) :
    exec (modify f : Tx σ PUnit) s = .ok (⟨⟩, f s) := rfl

theorem exec_bind (m : Tx σ α) (f : α → Tx σ β) (s : σ) :
    exec (m >>= f) s =
      match exec m s with
      | .ok (a, s') => exec (f a) s'
      | .error e => .error e := by
  change Except.bind (m s) _ = _
  unfold exec
  rcases m s with _ | ⟨_, _⟩ <;> rfl

end Tx

namespace Db

variable {σ α β : Type}

/-- Begins a transaction, runs its statements and commits. `fault` is the error of the statement
    that the database refuses, if there is one: whichever statement that is, the transaction ends
    with its error and is rolled back. -/
def transaction (fault : Option String) (body : Tx σ α) : Db σ α := fun s =>
  match fault with
  | some e => (.error e, s)
  | none =>
    match body.exec s with
    | .ok (a, s') => (.ok a, s')
    | .error e => (.error e, s)

/-- The result and the store after a computation. -/
def exec (m : Db σ α) (s : σ) : Except String α × σ :=
  m s

@[simp] theorem exec_pure (a : α) (s : σ) : exec (pure a : Db σ α) s = (.ok a, s) := rfl

@[simp] theorem exec_throw (e : String) (s : σ) : exec (throw e : Db σ α) s = (.error e, s) := rfl

theorem exec_bind (m : Db σ α) (f : α → Db σ β) (s : σ) :
    exec (m >>= f) s =
      match exec m s with
      | (.ok a, s') => exec (f a) s'
      | (.error e, s') => (.error e, s') := by
  change ExceptT.bindCont f (m s).1 (m s).2 = _
  unfold exec
  rcases m s with ⟨_ | _, _⟩ <;> rfl

theorem exec_bind_pure (m : Db σ α) (f : α → β) (s : σ) :
    exec (m >>= fun a => pure (f a)) s = ((exec m s).1.map f, (exec m s).2) := by
  rw [exec_bind]
  rcases exec m s with ⟨_ | _, _⟩ <;> rfl

/-- An error from outside the store. -/
def ofExcept (x : Except String α) : Db σ α := fun s => (x, s)

@[simp] theorem exec_ofExcept (x : Except String α) (s : σ) : exec (ofExcept x) s = (x, s) := rfl

@[simp] theorem exec_transaction_fault (e : String) (body : Tx σ α) (s : σ) :
    exec (transaction (some e) body) s = (.error e, s) := rfl

theorem exec_transaction (body : Tx σ α) (s : σ) :
    exec (transaction none body) s =
      match body.exec s with
      | .ok (a, s') => (.ok a, s')
      | .error e => (.error e, s) := rfl

/-- A transaction has changed nothing, or its statements have all been run. -/
theorem transaction_cases {fault : Option String} {body : Tx σ α} {s s' : σ}
    {r : Except String α} (h : exec (transaction fault body) s = (r, s')) :
    (s' = s ∧ ∃ e, r = .error e) ∨ ∃ a, r = .ok a ∧ body.exec s = .ok (a, s') := by
  cases fault with
  | some e =>
    obtain ⟨rfl, rfl⟩ := Prod.mk.inj h
    exact .inl ⟨rfl, e, rfl⟩
  | none =>
    rw [exec_transaction] at h
    cases hb : body.exec s with
    | error e =>
      rw [hb] at h
      obtain ⟨rfl, rfl⟩ := Prod.mk.inj h
      exact .inl ⟨rfl, e, rfl⟩
    | ok p =>
      rw [hb] at h
      obtain ⟨rfl, rfl⟩ := Prod.mk.inj h
      exact .inr ⟨p.1, rfl, rfl⟩

end Db
