import Mathlib.Logic.Function.Basic
import VynkorPlugins.Base.Transition

/-!
# Asynchronous functions

An asynchronous function is a tree of the effects it awaits: each effect is one step of its task,
and between two of them any other task may move. `Obeys` describes what the function does by the
effects it asks for, in terms of the answers it got before; `Pool` runs many such functions over one
world.
-/

/-- A function that is done, or awaits an effect and goes on with its answer. -/
inductive Async (E : Type) (R : E → Type) (α : Type) where
  | done (a : α)
  | call (e : E) (k : R e → Async E R α)

namespace Async

variable {E : Type} {R : E → Type} {S ι α β : Type}

protected def bind : Async E R α → (α → Async E R β) → Async E R β
  | .done a, f => f a
  | .call e k, f => .call e fun r => (k r).bind f

instance : Monad (Async E R) where
  pure := .done
  bind := Async.bind

/-- Awaits one effect. -/
def perform (e : E) : Async E R (R e) :=
  .call e .done

@[simp] theorem pure_eq (a : α) : (pure a : Async E R α) = .done a := rfl

@[simp] theorem done_bind (a : α) (f : α → Async E R β) : (Async.done a >>= f) = f a := rfl

@[simp] theorem call_bind (e : E) (k : R e → Async E R α) (f : α → Async E R β) :
    (Async.call e k >>= f) = .call e fun r => k r >>= f := rfl

@[simp] theorem perform_bind (e : E) (f : R e → Async E R β) :
    (perform e >>= f) = .call e f := rfl

instance : LawfulMonad (Async E R) := by
  refine LawfulMonad.mk' _ ?_ (fun _ _ => rfl) ?_
  · intro α m
    change m.bind Async.done = m
    induction m with
    | done a => rfl
    | call e k ih => exact congrArg (Async.call e) (funext ih)
  · intro α β γ m f g
    change (m.bind f).bind g = m.bind fun a => (f a).bind g
    induction m with
    | done a => rfl
    | call e k ih => exact congrArg (Async.call e) (funext ih)

/-! ## Protocols -/

/-- What a function may ask for, in terms of a state that its effects and their answers move. -/
structure Protocol (E : Type) (R : E → Type) (S : Type) where
  allowed : S → E → Prop
  next : S → (e : E) → R e → S → Prop

/-- Each effect the function asks for is allowed, whatever was answered before, and it ends in a
    state and with a result of which `Q` holds. -/
def Obeys (P : Protocol E R S) (Q : S → α → Prop) : S → Async E R α → Prop
  | s, .done a => Q s a
  | s, .call e k => P.allowed s e ∧ ∀ r s', P.next s e r s' → Obeys P Q s' (k r)

variable {P : Protocol E R S} {s : S}

@[simp] theorem obeys_done {Q : S → α → Prop} {a : α} : Obeys P Q s (.done a) ↔ Q s a := Iff.rfl

@[simp] theorem obeys_call {Q : S → α → Prop} {e : E} {k : R e → Async E R α} :
    Obeys P Q s (.call e k) ↔
      P.allowed s e ∧ ∀ r s', P.next s e r s' → Obeys P Q s' (k r) := Iff.rfl

theorem Obeys.bind {Q : S → α → Prop} {Q' : S → β → Prop} {m : Async E R α} {f : α → Async E R β}
    (hm : Obeys P Q s m) (hf : ∀ s a, Q s a → Obeys P Q' s (f a)) : Obeys P Q' s (m >>= f) := by
  induction m generalizing s with
  | done a => exact hf s a hm
  | call e k ih => exact ⟨hm.1, fun r s' hr => ih r (hm.2 r s' hr)⟩

theorem Obeys.mono {Q Q' : S → α → Prop} {m : Async E R α} (hm : Obeys P Q s m)
    (hQ : ∀ s a, Q s a → Q' s a) : Obeys P Q' s m := by
  induction m generalizing s with
  | done a => exact hQ s a hm
  | call e k ih => exact ⟨hm.1, fun r s' hr => ih r (hm.2 r s' hr)⟩

/-! ## Paths -/

/-- One way through a function: the effects it performs with the answers it gets, and its result. -/
inductive Path : Async E R α → List ((e : E) × R e) → α → Prop
  | done {a : α} : Path (.done a) [] a
  | call {e : E} {r : R e} {k : R e → Async E R α} {trace : List ((e : E) × R e)} {a : α} :
      Path (k r) trace a → Path (.call e k) (⟨e, r⟩ :: trace) a

variable {trace : List ((e : E) × R e)} {m : Async E R α}

theorem path_done_iff {a b : α} : Path (.done a : Async E R α) trace b ↔ trace = [] ∧ b = a := by
  constructor
  · intro h
    cases h
    exact ⟨rfl, rfl⟩
  · rintro ⟨rfl, rfl⟩
    exact .done

theorem path_call_iff {e : E} {k : R e → Async E R α} {a : α} :
    Path (.call e k) trace a ↔ ∃ r rest, trace = ⟨e, r⟩ :: rest ∧ Path (k r) rest a := by
  constructor
  · intro h
    cases h with
    | call h => exact ⟨_, _, rfl, h⟩
  · rintro ⟨r, rest, rfl, h⟩
    exact .call h

/-- A way through two functions, one after the other. -/
theorem path_bind_iff {f : α → Async E R β} {b : β} :
    Path (m >>= f) trace b ↔ ∃ t₁ a t₂, trace = t₁ ++ t₂ ∧ Path m t₁ a ∧ Path (f a) t₂ b := by
  induction m generalizing trace with
  | done a =>
    rw [done_bind]
    constructor
    · exact fun h => ⟨[], a, trace, rfl, .done, h⟩
    · rintro ⟨t₁, a', t₂, rfl, h₁, h₂⟩
      obtain ⟨rfl, rfl⟩ := path_done_iff.mp h₁
      exact h₂
  | call e k ih =>
    rw [call_bind, path_call_iff]
    constructor
    · rintro ⟨r, rest, rfl, h⟩
      obtain ⟨t₁, a, t₂, rfl, h₁, h₂⟩ := (ih r).mp h
      exact ⟨⟨e, r⟩ :: t₁, a, t₂, rfl, .call h₁, h₂⟩
    · rintro ⟨t₁, a, t₂, rfl, h₁, h₂⟩
      obtain ⟨r, rest, rfl, hr⟩ := path_call_iff.mp h₁
      exact ⟨r, rest ++ t₂, rfl, (ih r).mpr ⟨rest, a, t₂, rfl, hr, h₂⟩⟩

/-- The function asks for no other effects. -/
inductive Asks (p : E → Prop) : Async E R α → Prop
  | done {a : α} : Asks p (.done a)
  | call {e : E} {k : R e → Async E R α} (he : p e) (hk : ∀ r, Asks p (k r)) : Asks p (.call e k)

theorem asks_perform {p : E → Prop} {e : E} (he : p e) : Asks p (perform (R := R) e) :=
  .call he fun _ => .done

theorem Asks.bind {p : E → Prop} {f : α → Async E R β} (hm : Asks p m) (hf : ∀ a, Asks p (f a)) :
    Asks p (m >>= f) := by
  induction hm with
  | done => exact hf _
  | call he _ ih => exact .call he ih

theorem Asks.mono {p q : E → Prop} (hm : Asks p m) (h : ∀ e, p e → q e) : Asks q m := by
  induction hm with
  | done => exact .done
  | call he _ ih => exact .call (h _ he) ih

theorem Asks.of_path {p : E → Prop} {a : α} (hm : Asks p m) (h : Path m trace a) :
    ∀ event ∈ trace, p event.1 := by
  induction h with
  | done => exact fun _ h => nomatch h
  | call _ ih =>
    cases hm with
    | call he hk =>
      intro event hevent
      rcases List.mem_cons.mp hevent with rfl | hevent
      · exact he
      · exact ih (hk _) event hevent

/-! ## Pools -/

/-- Tasks and the world they share. -/
structure Pool (ι : Type) (E : Type) (R : E → Type) (α σ : Type) where
  tasks : ι → Async E R α
  world : σ

/-- A task gets the answer of its next effect, or the world moves by itself. -/
inductive PoolLabel (ι : Type) (E : Type) (R : E → Type) (ℓ : Type) where
  | act (i : ι) (e : E) (r : R e)
  | env (l : ℓ)

variable {σ ℓ : Type} [DecidableEq ι]

/-- The steps of a pool. `handle` says how the world answers an effect of a task. -/
inductive PoolStep (handle : ι → σ → (e : E) → R e → σ → Prop) (env : σ → ℓ → σ → Prop) :
    Pool ι E R α σ → PoolLabel ι E R ℓ → Pool ι E R α σ → Prop
  | act {p : Pool ι E R α σ} {i : ι} {e : E} {k : R e → Async E R α} {r : R e} {w : σ}
      (htask : p.tasks i = .call e k) (hw : handle i p.world e r w) :
      PoolStep handle env p (.act i e r) { tasks := Function.update p.tasks i (k r), world := w }
  | env {p : Pool ι E R α σ} {l : ℓ} {w : σ} (hw : env p.world l w) :
      PoolStep handle env p (.env l) { p with world := w }

variable {handle : ι → σ → (e : E) → R e → σ → Prop} {env : σ → ℓ → σ → Prop}

/-- A step that meets a condition on the world is a step of the pool in which each move of the world
    meets it. -/
theorem PoolStep.where (cond : σ → PoolLabel ι E R ℓ → Prop) {p p' : Pool ι E R α σ}
    {l : PoolLabel ι E R ℓ} (h : PoolStep handle env p l p') (hc : cond p.world l) :
    PoolStep (fun i w e r w' => handle i w e r w' ∧ cond w (.act i e r))
      (fun w l w' => env w l w' ∧ cond w (.env l)) p l p' := by
  cases h with
  | act htask hw => exact .act htask ⟨hw, hc⟩
  | env hw => exact .env ⟨hw, hc⟩

/-- The tasks obey the protocol, each from a state of its own, and these states, the run so far and
    the world are related by `I`. -/
def PoolInv (P : Protocol E R S) (Q : ι → S → α → Prop)
    (I : (ι → S) → List (PoolLabel ι E R ℓ) → σ → Prop) (trace : List (PoolLabel ι E R ℓ))
    (p : Pool ι E R α σ) : Prop :=
  ∃ g : ι → S, I g trace p.world ∧ ∀ i, Obeys P (Q i) (g i) (p.tasks i)

/-- A relation between the states of the protocol, the run and the world that the allowed effects
    and the moves of the world preserve is preserved by the steps of a pool. -/
theorem PoolInv.step {Q : ι → S → α → Prop}
    {I : (ι → S) → List (PoolLabel ι E R ℓ) → σ → Prop}
    (hact : ∀ g trace w i e r w', I g trace w → P.allowed (g i) e → handle i w e r w' →
      ∃ s, P.next (g i) e r s ∧ I (Function.update g i s) (.act i e r :: trace) w')
    (henv : ∀ g trace w l w', I g trace w → env w l w' → I g (.env l :: trace) w')
    {trace : List (PoolLabel ι E R ℓ)} {p p' : Pool ι E R α σ} {l : PoolLabel ι E R ℓ}
    (h : PoolInv P Q I trace p) (hstep : PoolStep handle env p l p') :
    PoolInv P Q I (l :: trace) p' := by
  obtain ⟨g, hI, hobeys⟩ := h
  cases hstep with
  | @act i e k r w htask hw =>
    have hi := hobeys i
    rw [htask] at hi
    obtain ⟨s, hs, hI'⟩ := hact g trace p.world i e r w hI hi.1 hw
    refine ⟨Function.update g i s, hI', fun j => ?_⟩
    simp only
    by_cases hj : j = i
    · subst hj
      rw [Function.update_self, Function.update_self]
      exact hi.2 r s hs
    · rw [Function.update_of_ne hj, Function.update_of_ne hj]
      exact hobeys j
  | env hw => exact ⟨g, henv g trace p.world _ _ hI hw, hobeys⟩

/-! ## What a task was told -/

/-- A protocol whose states are moved by the answers alone. -/
def Protocol.ofLearn (allowed : S → E → Prop) (learn : S → (e : E) → R e → S) : Protocol E R S where
  allowed
  next s e r s' := s' = learn s e r

/-- The state of a task in a run, by the answers it got. -/
def told (learn : S → (e : E) → R e → S) (s₀ : S) (i : ι) : List (PoolLabel ι E R ℓ) → S
  | [] => s₀
  | .act j e r :: trace => if j = i then learn (told learn s₀ i trace) e r else told learn s₀ i trace
  | .env _ :: trace => told learn s₀ i trace

theorem told_act (learn : S → (e : E) → R e → S) (s₀ : S) (i j : ι) (e : E) (r : R e)
    (trace : List (PoolLabel ι E R ℓ)) :
    told learn s₀ i (.act j e r :: trace) =
      if j = i then learn (told learn s₀ i trace) e r else told learn s₀ i trace := rfl

/-- In a run of tasks that obey such a protocol each effect is allowed by what its task was told before. -/
theorem obeys_told {allowed : S → E → Prop} {learn : S → (e : E) → R e → S} {s₀ : S}
    {Q : ι → S → α → Prop} {p₀ p : Pool ι E R α σ} {trace : List (PoolLabel ι E R ℓ)}
    (h₀ : ∀ i, Obeys (.ofLearn allowed learn) (Q i) s₀ (p₀.tasks i))
    (hrun : Transition.Run (PoolStep handle env) p₀ trace p) :
    (∀ i, Obeys (.ofLearn allowed learn) (Q i) (told learn s₀ i trace) (p.tasks i)) ∧
      ∀ later earlier i e r, trace = later ++ .act i e r :: earlier →
        allowed (told learn s₀ i earlier) e := by
  let I (g : ι → S) (trace : List (PoolLabel ι E R ℓ)) (_ : σ) : Prop :=
    (∀ i, g i = told learn s₀ i trace) ∧
      ∀ later earlier i e r, trace = later ++ .act i e r :: earlier → allowed (told learn s₀ i earlier) e
  have hinv : PoolInv (.ofLearn allowed learn) Q I trace p := by
    refine hrun.invariant (I := PoolInv (.ofLearn allowed learn) Q I) ?_ fun trace s l s' h hstep =>
      h.step ?_ ?_ hstep
    · refine ⟨fun _ => s₀, ⟨fun i => rfl, fun later earlier i e r h => ?_⟩, h₀⟩
      simp at h
    · rintro g trace w i e r w' ⟨htold, hbefore⟩ hallowed -
      refine ⟨_, rfl, fun j => ?_, fun later earlier j e' r' h => ?_⟩
      · rw [told_act]
        split_ifs with hij
        · rw [← hij, Function.update_self, htold i]
        · rw [Function.update_of_ne (Ne.symm hij), htold j]
      · cases later with
        | nil =>
          obtain ⟨hhead, rfl⟩ := List.cons.inj h
          cases hhead
          rw [← htold i]
          exact hallowed
        | cons l later => exact hbefore later earlier j e' r' (List.cons.inj h).2
    · rintro g trace w l w' ⟨htold, hbefore⟩ -
      refine ⟨htold, fun later earlier j e' r' h => ?_⟩
      cases later with
      | nil => cases (List.cons.inj h).1
      | cons l later => exact hbefore later earlier j e' r' (List.cons.inj h).2
  obtain ⟨g, ⟨htold, hbefore⟩, hobeys⟩ := hinv
  refine ⟨fun i => ?_, hbefore⟩
  rw [← htold i]
  exact hobeys i

/-! ## Functions that run alone -/

/-- A function runs to its end, and no other task moves meanwhile. -/
inductive Exec (handle : σ → (e : E) → R e → σ → Prop) : σ → Async E R α → α → σ → Prop
  | done {w : σ} {a : α} : Exec handle w (.done a) a w
  | call {w w₁ w' : σ} {e : E} {r : R e} {k : R e → Async E R α} {a : α}
      (hw : handle w e r w₁) (hk : Exec handle w₁ (k r) a w') : Exec handle w (.call e k) a w'

section

variable {handle : σ → (e : E) → R e → σ → Prop} {w w' : σ}

theorem exec_done_iff {a b : α} : Exec handle w (.done a) b w' ↔ b = a ∧ w' = w := by
  constructor
  · intro h
    cases h
    exact ⟨rfl, rfl⟩
  · rintro ⟨rfl, rfl⟩
    exact .done

theorem exec_call_iff {e : E} {k : R e → Async E R α} {a : α} :
    Exec handle w (.call e k) a w' ↔ ∃ r w₁, handle w e r w₁ ∧ Exec handle w₁ (k r) a w' := by
  constructor
  · intro h
    cases h with
    | call hw hk => exact ⟨_, _, hw, hk⟩
  · rintro ⟨r, w₁, hw, hk⟩
    exact .call hw hk

/-- One function runs after the other. -/
theorem exec_bind_iff {m : Async E R α} {f : α → Async E R β} {b : β} :
    Exec handle w (m >>= f) b w' ↔
      ∃ a w₁, Exec handle w m a w₁ ∧ Exec handle w₁ (f a) b w' := by
  induction m generalizing w with
  | done a =>
    rw [done_bind]
    constructor
    · exact fun h => ⟨a, w, .done, h⟩
    · rintro ⟨a', w₁, h₁, h₂⟩
      obtain ⟨rfl, rfl⟩ := exec_done_iff.mp h₁
      exact h₂
  | call e k ih =>
    rw [call_bind, exec_call_iff]
    constructor
    · rintro ⟨r, w₁, hw, h⟩
      obtain ⟨a, w₂, h₁, h₂⟩ := (ih r).mp h
      exact ⟨a, w₂, .call hw h₁, h₂⟩
    · rintro ⟨a, w₂, h₁, h₂⟩
      obtain ⟨r, w₁, hw, h₁⟩ := exec_call_iff.mp h₁
      exact ⟨r, w₁, hw, (ih r).mpr ⟨a, w₂, h₁, h₂⟩⟩

/-- The function on a world that gives each call one answer. -/
def run (serve : (e : E) → σ → R e × σ) : Async E R α → σ → α × σ
  | .done a, w => (a, w)
  | .call e k, w => run serve (k (serve e w).1) (serve e w).2

theorem run_bind (serve : (e : E) → σ → R e × σ) (m : Async E R α) (f : α → Async E R β) (w : σ) :
    run serve (m >>= f) w = run serve (f (run serve m w).1) (run serve m w).2 := by
  induction m generalizing w with
  | done a => rfl
  | call e k ih => exact ih _ _

theorem exec_run {serve : (e : E) → σ → R e × σ}
    (hserve : ∀ w e, handle w e (serve e w).1 (serve e w).2) (m : Async E R α) (w : σ) :
    Exec handle w m (run serve m w).1 (run serve m w).2 := by
  induction m generalizing w with
  | done a => exact .done
  | call e k ih => exact .call (hserve w e) (ih _ _)

end

end Async

/-!
## Calls to other plugins

A call to another plugin may come back with an error before or after it was done: it is refused, or
its answer is lost.
-/

/-- How a call to another plugin ends. -/
inductive Fate where
  | ok
  | refused (e : String)
  | applied (e : String)

namespace Fate

variable {α σ : Type}

def answer (a : α) : Fate → Except String α
  | .ok => .ok a
  | .refused e | .applied e => .error e

def write (w w' : σ) : Fate → σ
  | .refused _ => w
  | .ok | .applied _ => w'

/-- The call was done, whether or not its answer came back. -/
def done : Fate → Bool
  | .refused _ => false
  | .ok | .applied _ => true

def acknowledged : Fate → Bool
  | .ok => true
  | .refused _ | .applied _ => false

theorem write_eq (w w' : σ) (fate : Fate) : fate.write w w' = if fate.done then w' else w := by
  cases fate <;> rfl

theorem answer_eq_ok_iff {a b : α} {fate : Fate} :
    fate.answer a = .ok b ↔ fate = .ok ∧ a = b := by
  cases fate <;> simp [answer]

theorem acknowledged_iff {fate : Fate} : fate.acknowledged = true ↔ fate = .ok := by
  cases fate <;> simp [acknowledged]

theorem answer_of_not_acknowledged (a : α) {fate : Fate} (h : ¬ fate.acknowledged = true) :
    ∃ e, fate.answer a = .error e := by
  cases fate with
  | ok => exact absurd rfl h
  | refused e => exact ⟨e, rfl⟩
  | applied e => exact ⟨e, rfl⟩

end Fate
