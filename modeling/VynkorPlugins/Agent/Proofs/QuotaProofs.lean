import Mathlib
import VynkorPlugins.Agent.Quota
import VynkorPlugins.Agent.Proofs.EngineProofs

/-!
# Quotas hold over a whole goal

The requests for a tool that are sent for one goal keep its quota and its cooldown, and the calls for the goal
keep its budget, over all of its resumes. A task spends no more than the document that it has read leaves.
-/

namespace Agent

open Async Stateful Transition

namespace GoalDoc

/-- How often the tool was called for the goal. -/
def calls (tool : String) (doc : GoalDoc) : Nat := doc.tool_counts[tool]?.getD 0

/-- When it was called last. -/
def lastCall (tool : String) (doc : GoalDoc) : Option Int := doc.tool_last_ms[tool]?.map Int64.toInt

variable {doc : GoalDoc} {tool name : String}

theorem calls_counted (now : Int64) :
    (doc.counted name now).calls tool = if name = tool then doc.calls tool + 1 else doc.calls tool := by
  unfold calls counted
  rw [Table.getElem?_insert_ite]
  split_ifs with h
  · rw [h]
    rfl
  · rfl

theorem lastCall_counted (now : Int64) :
    (doc.counted name now).lastCall tool = if name = tool then some now.toInt else doc.lastCall tool := by
  unfold lastCall counted
  rw [Table.getElem?_insert_ite]
  split_ifs <;> rfl

/-- What a goal that awaits a confirmation is stored with. -/
structure Halts (tool : String) (doc : GoalDoc) : Prop where
  step : 0 < doc.budgetSteps
  budget : doc.budgetSteps ≤ doc.max_steps
  past : ∀ t ∈ doc.lastCall tool, 0 ≤ t

end GoalDoc

/-! ## What a task spends -/

/-- The goal that a task runs, and what it knows of the clock and of the requests that were sent. -/
structure Spent where
  goal : Option String
  now : Option Int
  /-- The clock is not before. -/
  low : Int
  calls : Nat
  last : Option Int
  dispatched : Nat
  max_steps : Nat
  /-- A stored document that awaits a confirmation has all of the requests counted. -/
  kept : Bool

namespace Spent

def start : Spent where
  goal := none
  now := none
  low := 0
  calls := 0
  last := none
  dispatched := 0
  max_steps := 0
  kept := true

variable (tool : String) (k : Spent)

def sent (name : String) : Spent :=
  { k with
    calls := if name = tool then k.calls + 1 else k.calls
    last := if name = tool then k.now else k.last
    dispatched := k.dispatched + 1
    kept := false }

/-- The goal of the document goes on. Its last step was no call. -/
def resumed (doc : GoalDoc) : Spent :=
  { k with
    goal := some doc.id
    low := max k.low ((doc.lastCall tool).getD k.low)
    calls := doc.calls tool
    last := doc.lastCall tool
    dispatched := doc.budgetSteps - 1
    max_steps := doc.max_steps
    kept := true }

def learn : (e : Eff) → e.Answer → Spent
  | .now, now => { k with now := some now.toInt, low := now.toInt }
  | .db_incr, .ok n => { start with goal := some (toString n), now := k.now, low := k.low }
  | .db_get (.resume_goal true) _, .ok (some doc) =>
    if doc.status = .needs_confirmation then k.resumed tool doc else k
  | .db_set .engine doc, .ok () => { k with max_steps := doc.max_steps, kept := true }
  | .db_set .engine doc, .error _ => { k with max_steps := doc.max_steps, kept := false }
  | .db_set .run_and_record _, _ => { k with kept := true }
  | .rpc_call _ false name _ _, _ => k.sent tool name
  | .reply _, _ => { k with goal := none }
  | _, _ => k

/-- The document has all counted that was sent, and `n` calls are not yet among its steps. -/
structure Fits (n : Nat) (doc : GoalDoc) : Prop where
  goal : k.goal = some doc.id
  calls : doc.calls tool = k.calls
  last : doc.lastCall tool = k.last
  dispatched : k.dispatched ≤ doc.budgetSteps + n
  budget : k.dispatched ≤ doc.max_steps
  past : ∀ t ∈ k.last, 0 ≤ t ∧ t ≤ k.low
  low : 0 ≤ k.low

/-- The document of a goal that is to halt. -/
structure Covers (doc : GoalDoc) : Prop where
  fits : k.Fits tool 0 doc
  step : k.dispatched < doc.budgetSteps
  budget : doc.budgetSteps ≤ doc.max_steps

/-- The goal goes on with the document. -/
structure Running (doc : GoalDoc) : Prop where
  fits : k.Fits tool 0 doc
  max_steps : k.max_steps = doc.max_steps
  status : doc.status ≠ .needs_confirmation

end Spent

section Quota

variable (id tool : String) (max_per_goal : Nat) (cooldown_ms : UInt64)

/-- What the quota leaves for a request for the tool that is started at `now`. -/
structure Spent.Affords (k : Spent) (now : Int) : Prop where
  calls : k.calls < max_per_goal
  cooldown : ∀ t ∈ k.last, (cooldown_ms.toNat : Int) ≤ now - t

def Spent.Allowed (k : Spent) : Eff → Prop
  | .db_incr => k.goal = none
  | .db_get (.resume_goal true) _ => k.goal = none
  | .db_set .engine doc =>
    k.goal = some doc.id ∧ k.dispatched ≤ doc.max_steps ∧
      (doc.status = .needs_confirmation → k.Covers tool doc)
  | .db_set .run_and_record doc => k.goal = some doc.id ∧ doc.status ≠ .needs_confirmation
  | .db_set .resume_goal doc => doc.status ≠ .needs_confirmation
  | .rpc_call goal_id false name _ _ =>
    k.goal = some goal_id ∧ k.dispatched < k.max_steps ∧
      (name = tool → ∃ now, k.now = some now ∧ k.Affords max_per_goal cooldown_ms now)
  | .rpc_call goal_id true name _ _ => goal_id = id → name ≠ tool
  | .reply _ => k.goal ≠ none → k.kept = true
  | _ => True

/-- What the answers are like in the runs that are considered. -/
def Spent.Told (k : Spent) : (e : Eff) → e.Answer → Prop
  | .now, now => k.low ≤ now.toInt
  | .load_catalog, .ok catalog => catalog.Lists tool max_per_goal cooldown_ms
  | .db_get (.resume_goal true) _, .ok (some doc) => doc.status = .needs_confirmation → doc.Halts tool
  | .rpc_call goal_id false name _ _, .error err =>
    goal_id = id → name = tool → is_device_target name = true → is_retryable_device_error err = false
  | _, _ => True

def spending : Protocol Eff Eff.Answer Spent where
  allowed k e := k.Allowed id tool max_per_goal cooldown_ms e
  next k e r k' := k.Told id tool max_per_goal cooldown_ms e r ∧ k' = k.learn tool e r

end Quota

variable {id tool : String} {max_per_goal : Nat} {cooldown_ms : UInt64}

theorem undisturbed_spending : Undisturbed (spending id tool max_per_goal cooldown_ms) := by
  intro k e he
  cases e <;> first
    | exact ⟨trivial, fun _ _ h => h.2⟩
    | cases he

/-! ## Documents -/

namespace Spent

variable {k : Spent} {doc : GoalDoc} {n : Nat}

/-- What does not count may be another. -/
theorem Fits.congr {doc' : GoalDoc} (h : k.Fits tool n doc) (hid : doc'.id = doc.id)
    (hcounts : doc'.tool_counts = doc.tool_counts) (hlast : doc'.tool_last_ms = doc.tool_last_ms)
    (hsteps : doc'.steps = doc.steps) (hmax : doc'.max_steps = doc.max_steps) : k.Fits tool n doc' := by
  refine ⟨hid ▸ h.goal, ?_, ?_, ?_, hmax ▸ h.budget, h.past, h.low⟩
  · rw [← h.calls]
    unfold GoalDoc.calls
    rw [hcounts]
  · rw [← h.last]
    unfold GoalDoc.lastCall
    rw [hlast]
  · unfold GoalDoc.budgetSteps
    rw [hsteps]
    exact h.dispatched

theorem Fits.push_turn (h : k.Fits tool n doc) (role content : String) :
    k.Fits tool n (doc.push_turn role content) :=
  h.congr rfl rfl rfl rfl rfl

theorem Fits.next_step (h : k.Fits tool (n + 1) doc) {kind : StepKind} (hkind : kind ≠ .final)
    (detail : Json) :
    k.Fits tool n (doc.next_step kind detail) := by
  refine ⟨h.goal, h.calls, h.last, ?_, h.budget, h.past, h.low⟩
  have hdispatched := h.dispatched
  rw [GoalDoc.budgetSteps_next_step hkind]
  omega

/-- A step that is no call. -/
theorem Fits.other_step (h : k.Fits tool n doc) (kind : StepKind) (detail : Json) :
    k.Fits tool n (doc.next_step kind detail) :=
  ⟨h.goal, h.calls, h.last,
    h.dispatched.trans (Nat.add_le_add_right (GoalDoc.le_budgetSteps_next_step kind detail) n), h.budget, h.past, h.low⟩

/-- A goal with steps left halts. -/
theorem Fits.halts (h : k.Fits tool 0 doc) (hbudget : doc.budgetSteps < doc.max_steps) {kind : StepKind}
    (hkind : kind ≠ .final) (detail : Json) : k.Covers tool (doc.next_step kind detail) := by
  have hstep : (doc.next_step kind detail).budgetSteps = doc.budgetSteps + 1 :=
    GoalDoc.budgetSteps_next_step hkind detail
  have hdispatched := h.dispatched
  refine ⟨h.other_step kind detail, by omega, ?_⟩
  rw [hstep]
  exact hbudget

/-- A later reading of the clock. -/
theorem Fits.later (h : k.Fits tool n doc) {now : Int64} (hnow : k.low ≤ now.toInt) :
    (k.learn tool .now now).Fits tool n doc :=
  ⟨h.goal, h.calls, h.last, h.dispatched, h.budget, fun t ht => ⟨(h.past t ht).1, (h.past t ht).2.trans hnow⟩,
    h.low.trans hnow⟩

/-- The call is counted, and is sent next. -/
theorem Fits.counted (h : k.Fits tool 0 doc) (hbudget : k.dispatched < doc.max_steps) {now : Int64}
    (hnow : k.now = some now.toInt) (hlow : k.low = now.toInt) (name : String) :
    (k.sent tool name).Fits tool 1 (doc.counted name now) := by
  refine ⟨h.goal, ?_, ?_, Nat.succ_le_succ h.dispatched, hbudget, ?_, h.low⟩
  · rw [GoalDoc.calls_counted, h.calls]
    rfl
  · rw [GoalDoc.lastCall_counted, h.last, ← hnow]
    rfl
  · intro t ht
    change t ∈ (if name = tool then k.now else k.last) at ht
    split_ifs at ht
    · rw [hnow] at ht
      obtain rfl := Option.some.inj ht
      exact ⟨hlow ▸ h.low, hlow.ge⟩
    · exact h.past t ht

/-- A request for another tool is not counted. -/
theorem Fits.sent_other (h : k.Fits tool 0 doc) (hbudget : k.dispatched < doc.max_steps) {name : String}
    (hname : name ≠ tool) : (k.sent tool name).Fits tool 1 doc := by
  refine ⟨h.goal, ?_, ?_, Nat.succ_le_succ h.dispatched, hbudget, ?_, h.low⟩
  · exact h.calls.trans (if_neg hname).symm
  · exact h.last.trans (if_neg hname).symm
  · intro t ht
    change t ∈ (if name = tool then k.now else k.last) at ht
    rw [if_neg hname] at ht
    exact h.past t ht

/-- The document of a goal that has halted. -/
theorem Fits.resumed (h : doc.Halts tool) : (Spent.start.resumed tool doc).Fits tool 0 doc := by
  refine ⟨rfl, rfl, rfl, Nat.sub_le _ _, (Nat.sub_le _ _).trans h.budget, fun t ht => ⟨h.past t ht, ?_⟩,
    le_max_left _ _⟩
  have hlast : doc.lastCall tool = some t := ht
  show t ≤ max 0 ((doc.lastCall tool).getD 0)
  rw [hlast]
  exact le_max_right _ _

end Spent

/-! ## The check -/

theorem Spent.Fits.affords {k : Spent} {doc : GoalDoc} {spec : ToolSpec} {now : Int64} (h : k.Fits tool 0 doc)
    (hcooldown : spec.cooldown_ms.toNat < 2 ^ 63) (hmax : 0 < spec.max_per_goal) (hlow : k.low = now.toInt)
    (hname : spec.name = tool) (hok : check_quota doc spec now = .ok ()) :
    k.Affords spec.max_per_goal spec.cooldown_ms k.low := by
  unfold check_quota at hok
  rw [hname] at hok
  dsimp only at hok
  split_ifs at hok with hcount hpositive
  · have hcalls : k.calls < spec.max_per_goal := by
      rw [← h.calls]
      exact not_le.mp fun hle => hcount ⟨hmax, hle⟩
    refine ⟨hcalls, fun t ht => ?_⟩
    obtain ⟨hnonneg, hpast⟩ := h.past t ht
    rw [← h.last] at ht
    obtain ⟨last, hlast, rfl⟩ := Option.map_eq_some_iff.mp ht
    rw [hlast] at hok
    dsimp only at hok
    split_ifs at hok with helapsed
    have hnow : (0 : Int64) ≤ now := by
      rw [Int64.le_iff_toInt_le, ← hlow]
      exact h.low
    rw [Int64.lt_iff_toInt_lt, Rust.toInt_sub_of_nonneg hnow (Int64.le_iff_toInt_le.mpr hnonneg),
      Rust.toInt_toInt64 hcooldown, ← hlow] at helapsed
    exact not_lt.mp helapsed
  · have hcalls : k.calls < spec.max_per_goal := by
      rw [← h.calls]
      exact not_le.mp fun hle => hcount ⟨hmax, hle⟩
    have hzero : spec.cooldown_ms.toNat = 0 := by
      exact Nat.le_zero.mp (UInt64.le_iff_toNat_le.mp (UInt64.not_lt.mp hpositive))
    refine ⟨hcalls, fun t ht => ?_⟩
    have hpast := (h.past t ht).2
    omega

theorem Spent.Fits.affords_listed {k : Spent} {doc : GoalDoc} {catalog : Catalog} {spec : ToolSpec}
    {name : String}
    {now : Int64} (h : k.Fits tool 0 doc) (hlists : catalog.Lists tool max_per_goal cooldown_ms)
    (hmax : 0 < max_per_goal) (hcooldown : cooldown_ms.toNat < 2 ^ 63) (hlow : k.low = now.toInt)
    (hspec : catalog.get name = some spec) (hok : check_quota doc spec now = .ok ()) (hname : name = tool) :
    k.Affords max_per_goal cooldown_ms k.low := by
  subst hname
  obtain ⟨listed, hlisted, rfl, rfl⟩ := hlists
  obtain rfl := Option.some.inj (hspec.symm.trans hlisted)
  exact h.affords hcooldown hmax hlow (Catalog.name_of_get hspec) hok

/-! ## The engine -/

section Engine

variable {k : Spent} {doc : GoalDoc} {catalog : Catalog}

/-- A part of the engine keeps the goal of the task, and `Q` holds where it goes on. -/
def Keeps {α : Type} (Q : Spent → α → GoalDoc → Prop) (k : Spent) (r : Except String α) (doc : GoalDoc) :
    Prop :=
  k.goal = some doc.id ∧ ∀ a, r = .ok a → Q k a doc

theorem Keeps.error {α : Type} {Q : Spent → α → GoalDoc → Prop} {e : String} (h : k.goal = some doc.id) :
    Keeps Q k (.error e) doc :=
  ⟨h, by rintro a ⟨⟩⟩

theorem Keeps.ok {α : Type} {Q : Spent → α → GoalDoc → Prop} {a : α} (h : k.goal = some doc.id)
    (hQ : Q k a doc) : Keeps Q k (.ok a) doc := by
  refine ⟨h, ?_⟩
  rintro _ ⟨⟩
  exact hQ

theorem Keeps.bind {α β : Type} {Q : Spent → α → GoalDoc → Prop} {Q' : Spent → β → GoalDoc → Prop}
    {m : Engine α} {f : α → Engine β}
    (hm : Ensures (spending id tool max_per_goal cooldown_ms) (Keeps Q) k doc m)
    (hf : ∀ k' a doc', k'.goal = some doc'.id → Q k' a doc' →
      Ensures (spending id tool max_per_goal cooldown_ms) (Keeps Q') k' doc' (f a)) :
    Ensures (spending id tool max_per_goal cooldown_ms) (Keeps Q') k doc (m >>= f) :=
  Ensures.bind hm (fun k' doc' a h => hf k' a doc' h.1 (h.2 a rfl)) fun _ _ _ h => .error h.1

theorem spends_push_turn (hgoal : k.goal = some doc.id) (role content : String) :
    Ensures (spending id tool max_per_goal cooldown_ms)
      (Keeps fun k' _ doc' => k' = k ∧ doc' = doc.push_turn role content) k doc (push_turn role content) := by
  refine (ensures_push_turn role content).mono ?_
  rintro k' r doc' ⟨rfl, rfl⟩
  exact ⟨hgoal, fun _ _ => ⟨rfl, rfl⟩⟩

/-- The document of a goal that goes on is stored with all counted. -/
theorem spends_persist_running (h : k.Fits tool 0 doc) (hstatus : doc.status ≠ .needs_confirmation) :
    Ensures (spending id tool max_per_goal cooldown_ms)
      (Keeps fun k' _ doc' => k'.Running tool doc' ∧ k'.kept = true) k doc persist := by
  refine ensures_await_bind trivial ?_
  rintro now k₁ ⟨hnow, rfl⟩
  have hfits := h.later hnow
  refine ensures_modify_bind (ensures_get_bind (ensures_await_bind
    ⟨h.goal, h.budget, fun hs => absurd hs hstatus⟩ ?_))
  rintro r k₂ ⟨-, rfl⟩
  cases r with
  | error e => exact ensures_throw (.error h.goal)
  | ok u =>
    refine ensures_pure (.ok h.goal ⟨⟨?_, rfl, hstatus⟩, rfl⟩)
    exact ⟨hfits.goal, hfits.calls, hfits.last, hfits.dispatched, hfits.budget, hfits.past, hfits.low⟩

/-- The document of a goal that ends or halts is stored. -/
theorem spends_persist_ended (hgoal : k.goal = some doc.id) (hbudget : k.dispatched ≤ doc.max_steps)
    (h : doc.status = .needs_confirmation → k.Covers tool doc) :
    Ensures (spending id tool max_per_goal cooldown_ms)
      (Keeps fun k' _ _ => k'.kept = true) k doc persist := by
  refine ensures_await_bind trivial ?_
  rintro now k₁ ⟨hnow, rfl⟩
  refine ensures_modify_bind (ensures_get_bind (ensures_await_bind ⟨hgoal, hbudget, fun hs => ?_⟩ ?_))
  · have hcovers := h hs
    exact ⟨(hcovers.fits.later hnow).congr rfl rfl rfl rfl rfl, hcovers.step, hcovers.budget⟩
  · rintro r k₂ ⟨-, rfl⟩
    cases r with
    | error e => exact ensures_throw (.error hgoal)
    | ok u => exact ensures_pure (.ok hgoal rfl)

/-- A request that is afforded, and its observation. -/
theorem spends_dispatch_and_observe {timeout_ms : Nat} {name : String} {params : Json}
    (hallowed : k.Allowed id tool max_per_goal cooldown_ms (.rpc_call doc.id false name params timeout_ms))
    (hfits : (k.sent tool name).Fits tool 1 doc) :
    Ensures (spending id tool max_per_goal cooldown_ms)
      (Keeps fun k' _ doc' => k' = k.sent tool name ∧ k'.Fits tool 0 doc' ∧ doc'.max_steps = doc.max_steps ∧
        doc'.status = doc.status) k doc (dispatch_and_observe timeout_ms name params) := by
  have hobserve : ∀ (content : String) (kind : StepKind) (detail : Json), kind ≠ .final →
      Ensures (spending id tool max_per_goal cooldown_ms)
        (Keeps fun k' _ doc' => k' = k.sent tool name ∧ k'.Fits tool 0 doc' ∧ doc'.max_steps = doc.max_steps ∧
          doc'.status = doc.status) (k.sent tool name) doc
        (push_turn "user" content >>= fun _ => next_step kind detail) := by
    intro content kind detail hkind
    refine Keeps.bind (spends_push_turn hfits.goal "user" content) ?_
    rintro k' ⟨⟩ doc' hgoal ⟨rfl, rfl⟩
    exact ensures_modify (.ok hgoal ⟨rfl, (hfits.push_turn "user" content).next_step hkind detail, rfl, rfl⟩)
  refine ensures_get_bind (ensures_await_bind hallowed ?_)
  rintro outcome k₁ ⟨htold, rfl⟩
  cases outcome with
  | ok v => exact hobserve _ _ _ (by decide)
  | error e =>
    dsimp only
    split
    · -- the same request once more, which is none for the tool
      rename_i hretry
      refine ensures_quiet_bind undisturbed_spending trivial fun _ => ensures_await_bind ?_ ?_
      · intro hid hname
        rw [htold hid hname hretry.1] at hretry
        cases hretry.2
      · rintro outcome k₁ ⟨-, rfl⟩
        cases outcome with
        | ok v => exact hobserve _ _ _ (by decide)
        | error e => exact hobserve _ _ _ (by decide)
    · exact hobserve _ _ _ (by decide)

theorem spends_dispatch_counted {spec : ToolSpec} {name : String} {params : Json} (h : k.Fits tool 0 doc)
    (hstatus : doc.status ≠ .needs_confirmation) (hmax : k.max_steps = doc.max_steps)
    (hbudget : k.dispatched < k.max_steps)
    (hquota : name = tool → k.Affords max_per_goal cooldown_ms k.low) :
    Ensures (spending id tool max_per_goal cooldown_ms) (Keeps fun k' _ doc' => k'.Running tool doc') k doc
      (dispatch_counted spec name params) := by
  refine ensures_await_bind trivial ?_
  rintro now k₁ ⟨hnow, rfl⟩
  have hcounted := (h.later hnow).counted (hmax ▸ hbudget) rfl rfl name
  refine ensures_modify_bind (Keeps.bind (spends_dispatch_and_observe
    ⟨h.goal, hbudget, fun hname => ?_⟩ hcounted) ?_)
  · refine ⟨now.toInt, rfl, (hquota hname).calls, fun t ht => ?_⟩
    have hcooldown := (hquota hname).cooldown t ht
    have hlater : k.low ≤ now.toInt := hnow
    omega
  · rintro k' ⟨⟩ doc' hgoal ⟨rfl, hfits, -, hsame⟩
    refine (spends_persist_running hfits (hsame ▸ hstatus)).mono ?_
    exact fun k'' r doc'' hkeeps => ⟨hkeeps.1, fun a ha => (hkeeps.2 a ha).1⟩

theorem spends_refuse_call {name e : String} (h : k.Fits tool 0 doc)
    (hstatus : doc.status ≠ .needs_confirmation) :
    Ensures (spending id tool max_per_goal cooldown_ms)
      (Keeps fun k' _ doc' => k'.Running tool doc' ∧ k'.kept = true) k doc (refuse_call name e) := by
  refine Keeps.bind (spends_push_turn h.goal "user" _) ?_
  rintro k' ⟨⟩ doc' hgoal ⟨rfl, rfl⟩
  exact ensures_modify_bind (spends_persist_running ((h.push_turn "user" _).other_step _ _) hstatus)

theorem spends_fail_goal (hgoal : k.goal = some doc.id) (hbudget : k.dispatched ≤ doc.max_steps)
    (e : String) :
    Ensures (spending id tool max_per_goal cooldown_ms) (Keeps fun k' _ _ => k'.kept = true) k doc
      (fail_goal e) :=
  ensures_modify_bind (ensures_modify_bind (spends_persist_ended hgoal hbudget (by rintro ⟨⟩)))

theorem spends_finish_goal (hgoal : k.goal = some doc.id) (hbudget : k.dispatched ≤ doc.max_steps)
    (answer : String) :
    Ensures (spending id tool max_per_goal cooldown_ms) (Keeps fun k' _ _ => k'.kept = true) k doc
      (finish_goal answer) :=
  ensures_modify_bind (ensures_modify_bind (spends_persist_ended hgoal hbudget (by rintro ⟨⟩)))

/-- The model has answered, and the document is as it was but for the transcript, or the goal has failed. -/
theorem spends_ask_model (llm : Llm) (llm_catalog : Catalog) (h : k.Running tool doc) :
    Ensures (spending id tool max_per_goal cooldown_ms)
      (Keeps fun k' outcome doc' => if outcome.isSome then k' = k ∧ k.Running tool doc' ∧
        doc'.budgetSteps = doc.budgetSteps else k'.kept = true) k doc (ask_model llm llm_catalog) := by
  have hfail : ∀ (doc' : GoalDoc) (e : String), k.goal = some doc'.id → k.dispatched ≤ doc'.max_steps →
      Ensures (spending id tool max_per_goal cooldown_ms)
        (Keeps fun k' outcome doc' => if outcome.isSome then k' = k ∧ k.Running tool doc' ∧
          doc'.budgetSteps = doc.budgetSteps else k'.kept = true) k doc'
        (fail_goal e >>= fun _ => pure (none : Option ChatOutcome)) := by
    intro doc' e hgoal hbudget
    refine Keeps.bind (spends_fail_goal hgoal hbudget e) ?_
    exact fun k' _ doc'' hgoal hkept => ensures_pure (.ok hgoal hkept)
  refine ensures_get_bind (ensures_quiet_bind undisturbed_spending trivial fun outcome => ?_)
  cases outcome with
  | ok outcome => exact ensures_pure (.ok h.fits.goal ⟨rfl, h, rfl⟩)
  | error e =>
    dsimp only
    split
    · refine ensures_modify_bind (Keeps.bind (spends_push_turn ?_ "user" _) ?_)
      · exact h.fits.goal
      · rintro k' ⟨⟩ doc' hgoal ⟨rfl, rfl⟩
        refine ensures_get_bind (ensures_quiet_bind undisturbed_spending trivial fun outcome => ?_)
        cases outcome with
        | ok outcome =>
          exact ensures_pure (.ok hgoal ⟨rfl, ⟨h.fits.congr rfl rfl rfl rfl rfl, h.max_steps, h.status⟩, rfl⟩)
        | error e => exact hfail _ e hgoal h.fits.budget
    · exact hfail _ e h.fits.goal h.fits.budget

/-- The goal goes on, or its document is stored with all counted. -/
def Goes (tool : String) (k : Spent) (goes_on : Bool) (doc : GoalDoc) : Prop :=
  if goes_on then k.Running tool doc else k.kept = true

theorem spends_tool_call (hlists : catalog.Lists tool max_per_goal cooldown_ms) (hmax : 0 < max_per_goal)
    (hcooldown : cooldown_ms.toNat < 2 ^ 63) (h : k.Running tool doc)
    (hbudget : doc.budgetSteps < doc.max_steps)
    (name : String) (params : Json) :
    Ensures (spending id tool max_per_goal cooldown_ms) (Keeps (Goes tool)) k doc
      (tool_call catalog name params) := by
  unfold tool_call
  split
  · refine Keeps.bind (spends_push_turn h.fits.goal "user" _) ?_
    rintro k' ⟨⟩ doc' hgoal ⟨rfl, rfl⟩
    refine ensures_modify_bind (Keeps.bind
      (spends_persist_running ((h.fits.push_turn "user" _).other_step _ _) h.status) ?_)
    exact fun k'' _ doc'' hgoal hrunning => ensures_pure (.ok hgoal hrunning.1)
  · rename_i spec hspec
    split
    · -- the goal halts with the call
      refine ensures_modify_bind (ensures_modify_bind
        (Keeps.bind (spends_persist_ended h.fits.goal h.fits.budget fun _ => ?_) ?_))
      · refine Spent.Fits.halts (h.fits.congr ?_ ?_ ?_ ?_ ?_) ?_ (by decide) _
        · rfl
        · rfl
        · rfl
        · rfl
        · rfl
        · exact hbudget
      · exact fun k' _ doc' hgoal hkept => ensures_pure (.ok hgoal hkept)
    · refine ensures_await_bind trivial ?_
      rintro now k₁ ⟨hnow, rfl⟩
      have hfits := h.fits.later hnow
      refine ensures_get_bind ?_
      split
      · refine Keeps.bind (spends_refuse_call hfits h.status) ?_
        exact fun k' _ doc' hgoal hrunning => ensures_pure (.ok hgoal hrunning.1)
      · rename_i hok
        refine Keeps.bind (spends_dispatch_counted hfits h.status h.max_steps ?_ ?_) ?_
        · have hdispatched := h.fits.dispatched
          have hsame := h.max_steps
          show k.dispatched < k.max_steps
          omega
        · exact hfits.affords_listed hlists hmax hcooldown rfl hspec hok
        · exact fun k' _ doc' hgoal hrunning => ensures_pure (.ok hgoal hrunning)

theorem spends_turn (hlists : catalog.Lists tool max_per_goal cooldown_ms) (hmax : 0 < max_per_goal)
    (hcooldown : cooldown_ms.toNat < 2 ^ 63) (h : k.Running tool doc) (llm : Llm) (llm_catalog : Catalog) :
    Ensures (spending id tool max_per_goal cooldown_ms) (Keeps (Goes tool)) k doc
      (turn llm llm_catalog catalog) := by
  refine ensures_get_bind ?_
  split
  · refine ensures_modify_bind (ensures_modify_bind
      (Keeps.bind (spends_persist_ended h.fits.goal h.fits.budget (by rintro ⟨⟩)) ?_))
    exact fun k' _ doc' hgoal hkept => ensures_pure (.ok hgoal hkept)
  · rename_i hbudget
    refine Keeps.bind (spends_ask_model llm llm_catalog h) ?_
    intro k' outcome doc' hgoal hasked
    cases outcome with
    | none => exact ensures_pure (.ok hgoal hasked)
    | some outcome =>
      obtain ⟨rfl, hrunning, hsteps⟩ := hasked
      refine Keeps.bind (spends_push_turn hgoal "assistant" _) ?_
      rintro k'' ⟨⟩ doc'' hgoal' ⟨rfl, rfl⟩
      split
      · refine Keeps.bind (spends_finish_goal hgoal' hrunning.fits.budget _) ?_
        exact fun k' _ doc' hgoal hkept => ensures_pure (.ok hgoal hkept)
      · have hpushed : k''.Running tool (doc'.push_turn "assistant" outcome.content) :=
          ⟨hrunning.fits.push_turn _ _, hrunning.max_steps, hrunning.status⟩
        refine spends_tool_call hlists hmax hcooldown hpushed ?_ _ _
        have hsame : doc.max_steps = doc'.max_steps := h.max_steps.symm.trans hrunning.max_steps
        show doc'.budgetSteps < doc'.max_steps
        omega

theorem spends_loop (hlists : catalog.Lists tool max_per_goal cooldown_ms) (hmax : 0 < max_per_goal)
    (hcooldown : cooldown_ms.toNat < 2 ^ 63) (llm : Llm) (llm_catalog : Catalog) {fuel : Nat}
    (h : k.Running tool doc) :
    Ensures (spending id tool max_per_goal cooldown_ms) (Keeps fun k' _ _ => k'.kept = true) k doc
      (loop llm llm_catalog catalog fuel) := by
  induction fuel generalizing k doc with
  | zero => exact ensures_await_bind trivial fun r => r.elim
  | succ fuel ih =>
    refine Keeps.bind (spends_turn hlists hmax hcooldown h llm llm_catalog) ?_
    intro k' goes_on doc' hgoal hturned
    cases goes_on with
    | false => exact ensures_pure (.ok hgoal hturned)
    | true => exact ih hturned

theorem spends_open_goal (llm : Llm) (config : Config) (llm_catalog dispatch_catalog : Catalog)
    (history : List (String × String)) (h : k.Fits tool 0 doc) :
    Ensures (spending id tool max_per_goal cooldown_ms) (Keeps fun k' _ doc' => k'.Running tool doc') k doc
      (open_goal llm config llm_catalog dispatch_catalog history) := by
  have hpersist : ∀ doc' : GoalDoc, k.Fits tool 0 doc' → doc'.status ≠ .needs_confirmation →
      Ensures (spending id tool max_per_goal cooldown_ms) (Keeps fun k' _ doc' => k'.Running tool doc') k doc'
        persist := by
    intro doc' hfits hstatus
    refine (spends_persist_running hfits hstatus).mono ?_
    exact fun k' r doc'' hkeeps => ⟨hkeeps.1, fun a ha => (hkeeps.2 a ha).1⟩
  refine ensures_modify_bind (ensures_get_bind ?_)
  dsimp only
  by_cases hmemory : config.memory_enabled = true
  · rw [if_pos hmemory]
    refine ensures_quiet_bind undisturbed_spending trivial fun block => ?_
    cases block with
    | none => exact hpersist _ (h.congr rfl rfl rfl rfl rfl) (by rintro ⟨⟩)
    | some block =>
      refine Keeps.bind (spends_push_turn ?_ "user" block) ?_
      · exact h.goal
      · rintro k' ⟨⟩ doc' hgoal ⟨rfl, rfl⟩
        exact hpersist _ (h.congr rfl rfl rfl rfl rfl) (by rintro ⟨⟩)
  · rw [if_neg hmemory]
    exact hpersist _ (h.congr rfl rfl rfl rfl rfl) (by rintro ⟨⟩)

/-- The confirmed call. Its goal has a step left that the halting turn has taken. -/
theorem spends_approved_resume (hlists : catalog.Lists tool max_per_goal cooldown_ms)
    (hmax : 0 < max_per_goal)
    (hcooldown : cooldown_ms.toNat < 2 ^ 63) (h : k.Fits tool 0 doc) (hsame : k.max_steps = doc.max_steps)
    (hbudget : k.dispatched < k.max_steps) :
    Ensures (spending id tool max_per_goal cooldown_ms) (Keeps (Goes tool)) k doc
      (approved_resume catalog) := by
  have hresumed : k.Fits tool 0 { doc with status := .running, pending_tool := "", pending_params := .null } :=
    h.congr rfl rfl rfl rfl rfl
  refine ensures_get_bind (ensures_modify_bind ?_)
  cases hspec : catalog.get doc.pending_tool with
  | none =>
    -- the tool itself is listed
    have hother : doc.pending_tool ≠ tool := by
      rintro rfl
      obtain ⟨spec, hlisted, -⟩ := hlists
      rw [hspec] at hlisted
      cases hlisted
    refine Keeps.bind (spends_dispatch_and_observe ⟨h.goal, hbudget, fun hname => absurd hname hother⟩
      (hresumed.sent_other (hsame ▸ hbudget) hother)) ?_
    rintro k' ⟨⟩ doc' hgoal ⟨rfl, hfits, -, hstatus⟩
    refine Keeps.bind (spends_persist_running hfits (by rw [hstatus]; rintro ⟨⟩)) ?_
    exact fun k'' _ doc'' hgoal hrunning => ensures_pure (.ok hgoal hrunning.1)
  | some spec =>
    refine ensures_await_bind trivial ?_
    rintro now k₁ ⟨hnow, rfl⟩
    have hfits := hresumed.later hnow
    refine ensures_get_bind ?_
    split
    · refine Keeps.bind (spends_refuse_call hfits (by rintro ⟨⟩)) ?_
      exact fun k' _ doc' hgoal hrunning => ensures_pure (.ok hgoal hrunning.2)
    · rename_i hok
      refine Keeps.bind (spends_dispatch_counted hfits (by rintro ⟨⟩) hsame hbudget ?_) ?_
      · exact hfits.affords_listed hlists hmax hcooldown rfl hspec hok
      · exact fun k' _ doc' hgoal hrunning => ensures_pure (.ok hgoal hrunning)

/-- A run leaves a document with all counted, or fails. -/
theorem spends_run (hlists : catalog.Lists tool max_per_goal cooldown_ms) (hmax : 0 < max_per_goal)
    (hcooldown : cooldown_ms.toNat < 2 ^ 63) (llm : Llm) (config : Config) {entry : Entry}
    (h : k.Fits tool 0 doc)
    (hentry : entry = .ApprovedResume → k.max_steps = doc.max_steps ∧ k.dispatched < k.max_steps) :
    Ensures (spending id tool max_per_goal cooldown_ms) (Keeps fun k' _ _ => k'.kept = true) k doc
      (run llm config catalog entry) := by
  have hloop (c : Catalog) {k₁ : Spent} {doc₁ : GoalDoc} (hrunning : k₁.Running tool doc₁) :
      Ensures (spending id tool max_per_goal cooldown_ms) (Keeps fun k' _ _ => k'.kept = true) k₁ doc₁
        (run_loop llm c catalog) :=
    ensures_get_bind (spends_loop hlists hmax hcooldown llm c hrunning)
  cases entry with
  | Fresh history =>
    refine ensures_modify_bind (ensures_get_bind (Ensures.bind
      (ensures_effective_catalog undisturbed_spending (fun _ => trivial) llm _ _) ?_ ?_))
    · rintro k' doc' c ⟨rfl, rfl, -⟩
      refine Keeps.bind (spends_open_goal llm config c catalog history (h.congr rfl rfl rfl rfl rfl)) ?_
      exact fun k'' _ doc'' _ hrunning => hloop c hrunning
    · rintro k' doc' e ⟨-, -, c, hc⟩
      cases hc
  | ApprovedResume =>
    refine ensures_get_bind (Ensures.bind
      (ensures_effective_catalog undisturbed_spending (fun _ => trivial) llm _ _) ?_ ?_)
    · rintro k' doc' c ⟨rfl, rfl, -⟩
      refine Keeps.bind (spends_approved_resume hlists hmax hcooldown h (hentry rfl).1 (hentry rfl).2) ?_
      intro k'' goes_on doc'' hgoal hturned
      cases goes_on with
      | false => exact ensures_pure (.ok hgoal hturned)
      | true => exact hloop c hturned
    · rintro k' doc' e ⟨-, -, c, hc⟩
      cases hc

end Engine

/-! ## Tasks -/

section Task

variable {k : Spent} {doc : GoalDoc} {catalog : Catalog}

theorem spends_run_and_record (hlists : catalog.Lists tool max_per_goal cooldown_ms) (hmax : 0 < max_per_goal)
    (hcooldown : cooldown_ms.toNat < 2 ^ 63) (llm : Llm) (config : Config) {entry : Entry}
    (h : k.Fits tool 0 doc)
    (hentry : entry = .ApprovedResume → k.max_steps = doc.max_steps ∧ k.dispatched < k.max_steps) :
    Obeys (spending id tool max_per_goal cooldown_ms) (fun k' _ => k'.kept = true) k
      (run_and_record llm config catalog entry doc) := by
  refine Obeys.bind (spends_run hlists hmax hcooldown llm config h hentry) ?_
  rintro k' ⟨r, doc'⟩ ⟨hgoal, hkept⟩
  cases r with
  | ok u => exact hkept u rfl
  | error e =>
    refine ⟨trivial, ?_⟩
    rintro now k₁ ⟨-, rfl⟩
    refine ⟨⟨hgoal, by rintro ⟨⟩⟩, ?_⟩
    rintro r k₂ ⟨-, rfl⟩
    rfl

/-- What a task leaves for its answer. -/
def Settled (k : Spent) : Prop := k.goal ≠ none → k.kept = true

theorem spends_start_goal (hmax : 0 < max_per_goal) (hcooldown : cooldown_ms.toNat < 2 ^ 63) (llm : Llm)
    (config : Config) (params : StartParams) :
    Obeys (spending id tool max_per_goal cooldown_ms) (fun k' _ => Settled k') .start
      (start_goal llm config params) := by
  have hidle : Settled .start := fun h => absurd rfl h
  refine ⟨trivial, ?_⟩
  rintro catalog k₁ ⟨hlists, rfl⟩
  cases catalog with
  | error e => exact hidle
  | ok catalog =>
    refine ⟨rfl, ?_⟩
    rintro n k₂ ⟨-, rfl⟩
    cases n with
    | error e => exact hidle
    | ok n =>
      refine ⟨trivial, ?_⟩
      rintro now k₃ ⟨hnow, rfl⟩
      refine obeys_quiet_bind undisturbed_spending trivial fun history => ?_
      refine Obeys.bind (spends_run_and_record hlists hmax hcooldown llm config ?_ (by rintro ⟨⟩)) ?_
      · exact ⟨rfl, rfl, rfl, Nat.zero_le _, Nat.zero_le _, by rintro t ⟨⟩, hnow⟩
      · intro k' r hkept
        cases r with
        | error e => exact fun _ => hkept
        | ok doc =>
          refine Obeys.bind (obeys_prune undisturbed_spending _) ?_
          rintro k'' - rfl
          exact fun _ => hkept

theorem spends_resume_goal (hmax : 0 < max_per_goal) (hcooldown : cooldown_ms.toNat < 2 ^ 63) (llm : Llm)
    (config : Config) (goal_id : String) (approve : Bool) :
    Obeys (spending id tool max_per_goal cooldown_ms) (fun k' _ => Settled k') .start
      (resume_goal llm config goal_id approve) := by
  have hidle : Settled .start := fun h => absurd rfl h
  cases approve with
  | false =>
    refine ⟨trivial, ?_⟩
    rintro r k₁ ⟨-, rfl⟩
    rcases r with e | _ | doc
    · exact hidle
    · exact hidle
    · show Obeys _ _ _ (if doc.status ≠ .needs_confirmation then _ else _)
      by_cases hstatus : doc.status = .needs_confirmation
      · rw [if_neg (not_not_intro hstatus)]
        refine ⟨trivial, ?_⟩
        rintro now k₂ ⟨-, rfl⟩
        refine ⟨by rintro ⟨⟩, ?_⟩
        rintro r k₃ ⟨-, rfl⟩
        cases r with
        | error e => exact fun h => absurd rfl h
        | ok u => exact fun h => absurd rfl h
      · rw [if_pos hstatus]
        exact hidle
  | true =>
    refine ⟨rfl, ?_⟩
    rintro r k₁ ⟨htold, rfl⟩
    rcases r with e | _ | doc
    · exact hidle
    · exact hidle
    · show Obeys _ _ _ (if doc.status ≠ .needs_confirmation then _ else _)
      by_cases hstatus : doc.status = .needs_confirmation
      · rw [if_neg (not_not_intro hstatus)]
        have hhalts := htold hstatus
        have hlearn : Spent.learn tool .start (.db_get (.resume_goal true) goal_id) (.ok (some doc)) =
            Spent.resumed tool .start doc := if_pos hstatus
        rw [hlearn]
        refine ⟨trivial, ?_⟩
        rintro catalog k₂ ⟨hlists, rfl⟩
        cases catalog with
        | error e => exact fun _ => rfl
        | ok catalog =>
          refine Obeys.mono (spends_run_and_record hlists hmax hcooldown llm config ?_ ?_) ?_
          · exact .resumed hhalts
          · intro _
            have hstep := hhalts.step
            have hbudget := hhalts.budget
            refine ⟨rfl, ?_⟩
            show doc.budgetSteps - 1 < doc.max_steps
            omega
          · exact fun k' _ hkept _ => hkept
      · rw [if_pos hstatus]
        have hlearn : Spent.learn tool .start (.db_get (.resume_goal true) goal_id) (.ok (some doc)) =
            .start :=
          if_neg hstatus
        rw [hlearn]
        exact hidle

theorem spends_task (hmax : 0 < max_per_goal) (hcooldown : cooldown_ms.toNat < 2 ^ 63) (llm : Llm)
    (config : Config) (spawn : Spawn) :
    Obeys (spending id tool max_per_goal cooldown_ms) (fun _ _ => True) .start (spawn.task llm config) := by
  cases spawn with
  | goal_start params =>
    refine Obeys.bind (spends_start_goal hmax hcooldown llm config params) ?_
    exact fun k r hsettled => ⟨hsettled, fun _ _ _ => trivial⟩
  | goal_resume goal_id approve =>
    refine Obeys.bind (spends_resume_goal hmax hcooldown llm config goal_id approve) ?_
    exact fun k r hsettled => ⟨hsettled, fun _ _ _ => trivial⟩
  | goal_delete goal_id =>
    refine ⟨trivial, ?_⟩
    rintro r k₁ ⟨-, rfl⟩
    have hidle : Settled .start := fun h => absurd rfl h
    rcases r with e | _ | doc
    · exact ⟨hidle, fun _ _ _ => trivial⟩
    · exact ⟨hidle, fun _ _ _ => trivial⟩
    · refine ⟨trivial, ?_⟩
      rintro deleted k₂ ⟨-, rfl⟩
      cases deleted with
      | error e => exact ⟨hidle, fun _ _ _ => trivial⟩
      | ok deleted => exact ⟨hidle, fun _ _ _ => trivial⟩

end Task

/-! ## Runs -/

theorem Ledger.sent_call (l : Ledger) (name : String) (started : Int64) :
    l.sent tool name false started =
      { l with
        starts := if name = tool then started :: l.starts else l.starts
        dispatched := l.dispatched + 1 } :=
  rfl

theorem Ledger.sent_again (l : Ledger) {name : String} (hname : name ≠ tool) (started : Int64) :
    l.sent tool name true started = l := by
  unfold Ledger.sent
  rw [if_neg hname, if_pos rfl]

/-- A task knows what was sent for its goal. -/
structure Ledger.Matches (l : Ledger) (k : Spent) : Prop where
  calls : l.starts.length = k.calls
  last : l.starts.head?.map Int64.toInt = k.last
  dispatched : l.dispatched ≤ k.dispatched
  max_steps : l.max_steps = k.max_steps

/-- What a task knows is so. Only the holder of the goal runs it, and knows of all that was sent for it. -/
structure Knows (id : String) (s : Watched) (i : Nat) (k : Spent) : Prop where
  low : k.low ≤ s.world.clock.toInt
  seen : ∀ t ∈ k.now, (s.seen i).toInt = t
  holder : s.holder = some i ↔ k.goal = some id
  spent : s.holder = some i → s.ledger.Matches k

/-- The quota is kept, and it will be: where no task runs the goal, or the one that does has it stored, a stored
    document that awaits a confirmation has all requests counted. -/
structure Spending (id tool : String) (max_per_goal : Nat) (cooldown_ms : UInt64) (g : Nat → Spent)
    (s : Watched) :
    Prop where
  within : s.ledger.WithinQuota max_per_goal cooldown_ms
  tasks : ∀ i, Knows id s i (g i)
  halted : ∀ (id' : String) (doc : GoalDoc), s.world.docs[id']? = some doc →
    doc.status = .needs_confirmation →
    doc.Halts tool ∧ ∀ t ∈ doc.lastCall tool, t ≤ s.world.clock.toInt
  stored : ∀ doc, s.world.docs[id]? = some doc → doc.status = .needs_confirmation →
    (∀ i, s.holder = some i → (g i).kept = true) → s.ledger.Matches (Spent.start.resumed tool doc)
  unborn : ∀ n : Nat, s.world.next_id < n → toString n = id → s.ledger = .empty ∧ s.holder = none ∧
    ∀ doc, s.world.docs[id]? = some doc → doc.status ≠ .needs_confirmation

section Run

variable {g : Nat → Spent} {s : Watched} {i : Nat} {w : World}

/-- No document that awaits a confirmation is stored, and the clock does not go back. -/
theorem Spending.frame (h : Spending id tool max_per_goal cooldown_ms g s)
    (hclock : s.world.clock.toInt ≤ w.clock.toInt) (hnext : s.world.next_id ≤ w.next_id)
    (hdocs : ∀ (id' : String) (doc : GoalDoc), w.docs[id']? = some doc → doc.status = .needs_confirmation →
      s.world.docs[id']? = some doc) :
    Spending id tool max_per_goal cooldown_ms g { s with world := w } where
  within := h.within
  tasks i := ⟨(h.tasks i).low.trans hclock, (h.tasks i).seen, (h.tasks i).holder, (h.tasks i).spent⟩
  halted id' doc hdoc hstatus := by
    obtain ⟨hhalts, hlast⟩ := h.halted id' doc (hdocs id' doc hdoc hstatus) hstatus
    exact ⟨hhalts, fun t ht => (hlast t ht).trans hclock⟩
  stored doc hdoc hstatus := h.stored doc (hdocs id doc hdoc hstatus) hstatus
  unborn n hn hid := by
    obtain ⟨hledger, hholder, hnone⟩ := h.unborn n (hnext.trans_lt hn) hid
    exact ⟨hledger, hholder, fun doc hdoc hstatus => hnone doc (hdocs id doc hdoc hstatus) hstatus⟩

/-- A task reads the clock. -/
theorem Spending.read (h : Spending id tool max_per_goal cooldown_ms g s) (i : Nat) :
    Spending id tool max_per_goal cooldown_ms (Function.update g i ((g i).learn tool .now s.world.clock))
      { s with seen := Function.update s.seen i s.world.clock } where
  within := h.within
  tasks := by
    refine (Function.forall_update_iff g fun j k => Knows id _ j k).mpr ⟨?_, fun j hj => ?_⟩
    · refine ⟨le_rfl, fun t ht => ?_, (h.tasks i).holder, fun hheld => ?_⟩
      · dsimp only
        rw [Function.update_self]
        exact Option.some.inj ht
      · have hspent := (h.tasks i).spent hheld
        exact ⟨hspent.calls, hspent.last, hspent.dispatched, hspent.max_steps⟩
    · refine ⟨(h.tasks j).low, fun t ht => ?_, (h.tasks j).holder, (h.tasks j).spent⟩
      dsimp only
      rw [Function.update_of_ne hj]
      exact (h.tasks j).seen t ht
  halted := h.halted
  stored doc hdoc hstatus hkept := by
    rw [Function.forall_update_iff g fun j k => s.holder = some j → k.kept = true] at hkept
    refine h.stored doc hdoc hstatus fun j hheld => ?_
    by_cases hj : j = i
    · subst hj
      exact hkept.1 hheld
    · exact hkept.2 j hj hheld
  unborn := h.unborn

/-- Another task than the holder of the goal runs no goal, or one of its own. -/
theorem Spending.other (h : Spending id tool max_per_goal cooldown_ms g s) (hheld : s.holder ≠ some i)
    {k : Spent}
    (hk : Knows id s i k) : Spending id tool max_per_goal cooldown_ms (Function.update g i k) s where
  within := h.within
  tasks := (Function.forall_update_iff g fun j k => Knows id s j k).mpr ⟨hk, fun j _ => h.tasks j⟩
  halted := h.halted
  stored doc hdoc hstatus hkept := by
    refine h.stored doc hdoc hstatus fun j hj => ?_
    have hne : j ≠ i := by
      rintro rfl
      exact hheld hj
    have hkept' := hkept j hj
    rwa [Function.update_of_ne hne] at hkept'
  unborn := h.unborn

/-- The holder of the goal changes, or what was sent for it. The others do not run it. -/
theorem Knows.of_other {s' : Watched} {j : Nat} {k : Spent} (h : Knows id s j k)
    (hclock : s'.world.clock = s.world.clock) (hseen : s'.seen = s.seen) (hbefore : s.holder ≠ some j)
    (hafter : s'.holder ≠ some j) : Knows id s' j k where
  low := hclock ▸ h.low
  seen := hseen ▸ h.seen
  holder := iff_of_false hafter fun hgoal => hbefore (h.holder.mpr hgoal)
  spent hheld := absurd hheld hafter

/-- A task is given the id of a new goal. -/
theorem Spending.begin (h : Spending id tool max_per_goal cooldown_ms g s) (hidle : (g i).goal = none)
    {n : Nat}
    (hn : n = s.world.next_id + 1) :
    Spending id tool max_per_goal cooldown_ms (Function.update g i ((g i).learn tool .db_incr (.ok n)))
      { s with
        world := { s.world with next_id := n }
        holder := if toString n = id then some i else s.holder } := by
  have hheld : s.holder ≠ some i := by
    intro hheld
    rw [(h.tasks i).holder.mp hheld] at hidle
    cases hidle
  split_ifs with hid
  · -- the id was not given to any task before
    obtain ⟨hledger, hholder, hnone⟩ := h.unborn n (by omega) hid
    refine ⟨h.within, (Function.forall_update_iff g fun j k => Knows id _ j k).mpr ⟨?_, fun j hj => ?_⟩,
      h.halted,
      fun doc hdoc hstatus => absurd hstatus (hnone doc hdoc), fun m hm hid' => ?_⟩
    · refine ⟨(h.tasks i).low, (h.tasks i).seen, iff_of_true rfl (congrArg some hid), fun _ => ?_⟩
      show s.ledger.Matches _
      rw [hledger]
      exact ⟨rfl, rfl, le_rfl, rfl⟩
    · refine (h.tasks j).of_other rfl rfl ?_ ?_
      · rw [hholder]
        rintro ⟨⟩
      · exact fun hj' => hj (Option.some.inj hj').symm
    · have hsame : n = m := Nat.repr_injective (hid.trans hid'.symm)
      have hlt : n < m := hm
      omega
  · have hframe := h.frame (w := { s.world with next_id := n }) le_rfl (by show s.world.next_id ≤ n; omega)
      fun _ _ hdoc _ => hdoc
    refine hframe.other hheld ⟨(h.tasks i).low, (h.tasks i).seen, iff_of_false hheld ?_,
      fun hh => absurd hh hheld⟩
    exact fun hgoal => hid (Option.some.inj hgoal)

/-- A task reads a document that awaits a confirmation, to have it approved. -/
theorem Spending.resume (h : Spending id tool max_per_goal cooldown_ms g s) (hidle : (g i).goal = none)
    {doc : GoalDoc} {id' : String} (hdoc : s.world.docs[id']? = some doc)
    (hstatus : doc.status = .needs_confirmation) (hfree : id' = id → s.holder = none) :
    Spending id tool max_per_goal cooldown_ms (Function.update g i ((g i).resumed tool doc))
      { s with holder := if id' = id then some i else s.holder } := by
  have hheld : s.holder ≠ some i := by
    intro hheld
    rw [(h.tasks i).holder.mp hheld] at hidle
    cases hidle
  have hlow : ((g i).resumed tool doc).low ≤ s.world.clock.toInt := by
    refine max_le (h.tasks i).low ?_
    cases hlast : doc.lastCall tool with
    | none => exact (h.tasks i).low
    | some t => exact (h.halted id' doc hdoc hstatus).2 t hlast
  have hkey := s.world.keyed id' doc hdoc
  split_ifs with hid
  · have hholder := hfree hid
    rw [hid] at hdoc hkey
    have hstored : ∀ doc, s.world.docs[id]? = some doc → doc.status = .needs_confirmation →
        s.ledger.Matches (Spent.start.resumed tool doc) := by
      intro doc' hdoc' hstatus'
      refine h.stored doc' hdoc' hstatus' fun j hj => ?_
      rw [hholder] at hj
      cases hj
    refine ⟨h.within, (Function.forall_update_iff g fun j k => Knows id _ j k).mpr ⟨?_, fun j hj => ?_⟩,
      h.halted,
      fun doc' hdoc' hstatus' _ => hstored doc' hdoc' hstatus', fun m hm hid' => ?_⟩
    · refine ⟨hlow, (h.tasks i).seen, iff_of_true rfl (congrArg some hkey), fun _ => ?_⟩
      have hmatches := hstored doc hdoc hstatus
      exact ⟨hmatches.calls, hmatches.last, hmatches.dispatched, hmatches.max_steps⟩
    · refine (h.tasks j).of_other rfl rfl ?_ ?_
      · rw [hholder]
        rintro ⟨⟩
      · exact fun hj' => hj (Option.some.inj hj').symm
    · obtain ⟨-, -, hnone⟩ := h.unborn m hm hid'
      exact absurd hstatus (hnone doc hdoc)
  · refine h.other hheld ⟨hlow, (h.tasks i).seen, iff_of_false hheld fun hgoal => ?_,
      fun hh => absurd hh hheld⟩
    exact hid (hkey.symm.trans (Option.some.inj hgoal))

/-- What is stored after a write with some fate. -/
theorem World.docs_write (w : World) (doc : GoalDoc) (id' : String) :
    (w.fate.write w (w.put doc)).docs[id']? =
      if w.fate.done = true ∧ doc.id = id' then some doc else w.docs[id']? := by
  rw [Fate.write_eq]
  split_ifs with hdone h h
  · rw [World.getElem?_put, if_pos h.2]
  · rw [World.getElem?_put, if_neg fun hid => h ⟨hdone, hid⟩]
  · exact absurd h.1 hdone
  · rfl

theorem World.clock_write (w : World) (doc : GoalDoc) : (w.fate.write w (w.put doc)).clock = w.clock := by
  rw [Fate.write_eq]
  split_ifs <;> rfl

theorem World.next_id_write (w : World) (doc : GoalDoc) :
    (w.fate.write w (w.put doc)).next_id = w.next_id := by
  rw [Fate.write_eq]
  split_ifs <;> rfl

/-- A document that awaits no confirmation takes the place of another. -/
theorem World.docs_write_of_ne {doc : GoalDoc} (hstatus : doc.status ≠ .needs_confirmation) (id' : String)
    (doc' : GoalDoc) (hdoc' : (w.fate.write w (w.put doc)).docs[id']? = some doc')
    (hstatus' : doc'.status = .needs_confirmation) : w.docs[id']? = some doc' := by
  rw [World.docs_write] at hdoc'
  split_ifs at hdoc'
  · obtain rfl := Option.some.inj hdoc'
    exact absurd hstatus' hstatus
  · exact hdoc'

theorem World.clock_erase (w : World) (id' : String) :
    (w.fate.write w (w.delete id')).clock = w.clock := by
  rw [Fate.write_eq]
  split_ifs <;> rfl

theorem World.next_id_erase (w : World) (id' : String) :
    (w.fate.write w (w.delete id')).next_id = w.next_id := by
  rw [Fate.write_eq]
  split_ifs <;> rfl

/-- What is still there after a deletion was there before. -/
theorem World.docs_erase {id' id'' : String} {doc : GoalDoc}
    (hdoc : (w.fate.write w (w.delete id')).docs[id'']? = some doc) : w.docs[id'']? = some doc := by
  rw [Fate.write_eq] at hdoc
  split_ifs at hdoc
  · rw [World.getElem?_delete] at hdoc
    split_ifs at hdoc
    exact hdoc
  · exact hdoc

/-- The goal is stored, or the write is lost. -/
theorem Spending.persist (h : Spending id tool max_per_goal cooldown_ms g s) {doc : GoalDoc}
    (hallowed : (g i).Allowed id tool max_per_goal cooldown_ms (.db_set .engine doc)) :
    Spending id tool max_per_goal cooldown_ms
      (Function.update g i ((g i).learn tool (.db_set .engine doc) (s.world.fate.answer ())))
      { s with
        world := s.world.fate.write s.world (s.world.put doc)
        ledger := if doc.id = id then { s.ledger with max_steps := doc.max_steps } else s.ledger } := by
  obtain ⟨hgoal, hbudget, hcovers⟩ := hallowed
  have hlearn : (g i).learn tool (.db_set .engine doc) (s.world.fate.answer ()) =
      { g i with max_steps := doc.max_steps, kept := s.world.fate.acknowledged } := by
    cases s.world.fate <;> rfl
  have hhalted : ∀ (id' : String) (doc' : GoalDoc),
      (s.world.fate.write s.world (s.world.put doc)).docs[id']? = some doc' →
      doc'.status = .needs_confirmation →
      doc'.Halts tool ∧ ∀ t ∈ doc'.lastCall tool, t ≤ s.world.clock.toInt := by
    intro id' doc' hdoc' hstatus
    rw [World.docs_write] at hdoc'
    split_ifs at hdoc'
    · obtain rfl := Option.some.inj hdoc'
      have hcovered := hcovers hstatus
      refine ⟨⟨Nat.zero_lt_of_lt hcovered.step, hcovered.budget, fun t ht => ?_⟩, fun t ht => ?_⟩
      · rw [hcovered.fits.last] at ht
        exact (hcovered.fits.past t ht).1
      · rw [hcovered.fits.last] at ht
        exact (hcovered.fits.past t ht).2.trans (h.tasks i).low
    · exact h.halted id' doc' hdoc' hstatus
  rw [← s.world.clock_write doc] at hhalted
  have hlow : ∀ j, (g j).low ≤ (s.world.fate.write s.world (s.world.put doc)).clock.toInt := by
    intro j
    rw [World.clock_write]
    exact (h.tasks j).low
  rw [hlearn]
  by_cases hid : doc.id = id
  · rw [if_pos hid]
    have hheld : s.holder = some i := (h.tasks i).holder.mpr (hid ▸ hgoal)
    have hspent := (h.tasks i).spent hheld
    refine ⟨⟨h.within.requests, h.within.apart, hspent.dispatched.trans hbudget⟩,
      (Function.forall_update_iff g fun j k => Knows id _ j k).mpr ⟨?_, fun j hj => ?_⟩, hhalted,
      fun doc' hdoc' hstatus hkept => ?_, fun n hn hid' => ?_⟩
    · exact ⟨hlow i, (h.tasks i).seen, (h.tasks i).holder, fun _ =>
        ⟨hspent.calls, hspent.last, hspent.dispatched, rfl⟩⟩
    · have hother : s.holder ≠ some j := by
        rw [hheld]
        exact fun hj' => hj (Option.some.inj hj').symm
      exact (h.tasks j).of_other (World.clock_write _ _) rfl hother hother
    · -- the holder has it stored only if the write was acknowledged
      have hkept' := hkept i hheld
      rw [Function.update_self] at hkept'
      have hdone : s.world.fate.done = true := by
        rw [Fate.acknowledged_iff.mp hkept']
        rfl
      rw [World.docs_write, if_pos ⟨hdone, hid⟩] at hdoc'
      obtain rfl := Option.some.inj hdoc'
      have hcovered := hcovers hstatus
      refine ⟨hspent.calls.trans hcovered.fits.calls.symm, hspent.last.trans hcovered.fits.last.symm, ?_, rfl⟩
      exact hspent.dispatched.trans (Nat.le_sub_one_of_lt hcovered.step)
    · rw [World.next_id_write] at hn
      obtain ⟨-, hnone, -⟩ := h.unborn n hn hid'
      rw [hheld] at hnone
      cases hnone
  · rw [if_neg hid]
    have hheld : s.holder ≠ some i := by
      intro hheld
      exact hid (Option.some.inj (hgoal.symm.trans ((h.tasks i).holder.mp hheld)))
    have hsame : (s.world.fate.write s.world (s.world.put doc)).docs[id]? = s.world.docs[id]? := by
      rw [World.docs_write, if_neg fun hw => hid hw.2]
    have hworld : Spending id tool max_per_goal cooldown_ms g
        { s with world := s.world.fate.write s.world (s.world.put doc) } := by
      refine ⟨h.within, fun j => ⟨hlow j, (h.tasks j).seen, (h.tasks j).holder, (h.tasks j).spent⟩, hhalted,
        fun doc' hdoc' => h.stored doc' (hsame.symm.trans hdoc'), fun n hn hid' => ?_⟩
      rw [World.next_id_write] at hn
      obtain ⟨hledger, hnone, hnever⟩ := h.unborn n hn hid'
      exact ⟨hledger, hnone, fun doc' hdoc' => hnever doc' (hsame.symm.trans hdoc')⟩
    refine hworld.other hheld ⟨hlow i, (h.tasks i).seen, (h.tasks i).holder, fun hh => absurd hh hheld⟩

/-- The holder of the goal, or another task, has ended its run. No document of the goal awaits a confirmation. -/
theorem Spending.close (h : Spending id tool max_per_goal cooldown_ms g s)
    (hnone : (g i).goal = some id → ∀ doc, s.world.docs[id]? = some doc → doc.status ≠ .needs_confirmation) :
    Spending id tool max_per_goal cooldown_ms (Function.update g i { g i with kept := true }) s := by
  have hknows : Knows id s i { g i with kept := true } := by
    refine ⟨(h.tasks i).low, (h.tasks i).seen, (h.tasks i).holder, fun hheld => ?_⟩
    have hspent := (h.tasks i).spent hheld
    exact ⟨hspent.calls, hspent.last, hspent.dispatched, hspent.max_steps⟩
  by_cases hheld : s.holder = some i
  · have hgoal := (h.tasks i).holder.mp hheld
    exact ⟨h.within, (Function.forall_update_iff g fun j k => Knows id s j k).mpr
      ⟨hknows, fun j _ => h.tasks j⟩,
      h.halted, fun doc hdoc hstatus => absurd hstatus (hnone hgoal doc hdoc), h.unborn⟩
  · exact h.other hheld hknows

/-- What became of the goal is stored, and none of it awaits a confirmation. -/
theorem Spending.record (h : Spending id tool max_per_goal cooldown_ms g s) {doc : GoalDoc}
    (hgoal : (g i).goal = some doc.id) (hstatus : doc.status ≠ .needs_confirmation)
    (hdone : doc.id = id → s.world.fate.done = true) :
    Spending id tool max_per_goal cooldown_ms (Function.update g i { g i with kept := true })
      { s with world := s.world.fate.write s.world (s.world.put doc) } := by
  have hworld := h.frame (by rw [World.clock_write]) (World.next_id_write s.world doc).ge
    (World.docs_write_of_ne hstatus)
  refine hworld.close fun hgoal' doc' hdoc' => ?_
  have hid : doc.id = id := Option.some.inj (hgoal.symm.trans hgoal')
  change (s.world.fate.write s.world (s.world.put doc)).docs[id]? = some doc' at hdoc'
  rw [World.docs_write, if_pos ⟨hdone hid, hid⟩] at hdoc'
  obtain rfl := Option.some.inj hdoc'
  exact hstatus

/-- A request is sent for the goal that the task runs. -/
theorem Spending.send (h : Spending id tool max_per_goal cooldown_ms g s) {goal_id name : String}
    {params : Json}
    {timeout_ms : Nat}
    (hallowed : (g i).Allowed id tool max_per_goal cooldown_ms
      (.rpc_call goal_id false name params timeout_ms)) :
    Spending id tool max_per_goal cooldown_ms (Function.update g i ((g i).sent tool name))
      { s with ledger := if goal_id = id then s.ledger.sent tool name false (s.seen i) else s.ledger } := by
  obtain ⟨hgoal, hbudget, hafford⟩ := hallowed
  by_cases hid : goal_id = id
  · rw [if_pos hid]
    have hheld : s.holder = some i := (h.tasks i).holder.mpr (hid ▸ hgoal)
    have hspent := (h.tasks i).spent hheld
    have hwithin : (s.ledger.sent tool name false (s.seen i)).WithinQuota max_per_goal cooldown_ms := by
      have hdispatched : s.ledger.dispatched + 1 ≤ s.ledger.max_steps := by
        rw [hspent.max_steps]
        exact Nat.succ_le_of_lt (hspent.dispatched.trans_lt hbudget)
      rw [Ledger.sent_call]
      split_ifs with hname
      · obtain ⟨now, hnow, hquota⟩ := hafford hname
        refine ⟨?_, List.isChain_cons.mpr ⟨fun t ht => ?_, h.within.apart⟩, hdispatched⟩
        · rw [List.length_cons, hspent.calls]
          exact hquota.calls
        · rw [(h.tasks i).seen now hnow]
          refine hquota.cooldown t.toInt ?_
          rw [← hspent.last, Option.mem_def.mp ht]
          rfl
      · exact ⟨h.within.requests, h.within.apart, hdispatched⟩
    refine ⟨hwithin, (Function.forall_update_iff g fun j k => Knows id _ j k).mpr ⟨?_, fun j hj => ?_⟩,
      h.halted,
      fun doc' hdoc' hstatus hkept => ?_, fun n hn hid' => ?_⟩
    · refine ⟨(h.tasks i).low, (h.tasks i).seen, (h.tasks i).holder, fun _ => ?_⟩
      refine ⟨?_, ?_, Nat.succ_le_succ hspent.dispatched, hspent.max_steps⟩
      · rw [Ledger.sent_call]
        unfold Spent.sent
        dsimp only
        split_ifs
        · rw [List.length_cons, hspent.calls]
        · exact hspent.calls
      · rw [Ledger.sent_call]
        unfold Spent.sent
        dsimp only
        split_ifs with hname
        · obtain ⟨now, hnow, -⟩ := hafford hname
          rw [hnow, ← (h.tasks i).seen now hnow]
          rfl
        · exact hspent.last
    · have hother : s.holder ≠ some j := by
        rw [hheld]
        exact fun hj' => hj (Option.some.inj hj').symm
      exact (h.tasks j).of_other rfl rfl hother hother
    · -- the request is not yet stored
      have hkept' := hkept i hheld
      rw [Function.update_self] at hkept'
      cases hkept'
    · obtain ⟨-, hnone, -⟩ := h.unborn n hn hid'
      rw [hheld] at hnone
      cases hnone
  · rw [if_neg hid]
    have hheld : s.holder ≠ some i := by
      intro hheld
      exact hid (Option.some.inj (hgoal.symm.trans ((h.tasks i).holder.mp hheld)))
    exact h.other hheld ⟨(h.tasks i).low, (h.tasks i).seen, (h.tasks i).holder, fun hh => absurd hh hheld⟩

/-- A task answers. -/
theorem Spending.reply (h : Spending id tool max_per_goal cooldown_ms g s) (hkept : Settled (g i)) :
    Spending id tool max_per_goal cooldown_ms (Function.update g i { g i with goal := none })
      { s with holder := if s.holder = some i then none else s.holder } := by
  by_cases hheld : s.holder = some i
  · rw [if_pos hheld]
    have hgoal := (h.tasks i).holder.mp hheld
    refine ⟨h.within, (Function.forall_update_iff g fun j k => Knows id _ j k).mpr ⟨?_, fun j hj => ?_⟩,
      h.halted,
      fun doc hdoc hstatus _ => ?_, fun n hn hid => ?_⟩
    · exact ⟨(h.tasks i).low, (h.tasks i).seen, iff_of_false (by rintro ⟨⟩) (by rintro ⟨⟩), by rintro ⟨⟩⟩
    · refine (h.tasks j).of_other rfl rfl ?_ (by rintro ⟨⟩)
      rw [hheld]
      exact fun hj' => hj (Option.some.inj hj').symm
    · refine h.stored doc hdoc hstatus fun j hj => ?_
      obtain rfl := Option.some.inj (hheld.symm.trans hj)
      refine hkept ?_
      rw [hgoal]
      rintro ⟨⟩
    · obtain ⟨hledger, -, hnone⟩ := h.unborn n hn hid
      exact ⟨hledger, rfl, hnone⟩
  · rw [if_neg hheld]
    exact h.other hheld ⟨(h.tasks i).low, (h.tasks i).seen, iff_of_false hheld (by rintro ⟨⟩),
      fun hh => absurd hh hheld⟩

/-! What is noted of a call -/

theorem Watched.note_incr (n : Nat) : s.note id tool i .db_incr (.ok n) =
    { s with holder := if toString n = id then some i else s.holder } := by
  unfold note
  dsimp only
  split_ifs <;> rfl

theorem Watched.note_approve {id' : String} {doc : GoalDoc} (hstatus : doc.status = .needs_confirmation) :
    s.note id tool i (.db_get (.resume_goal true) id') (.ok (some doc)) =
      { s with holder := if id' = id then some i else s.holder } := by
  unfold note
  dsimp only
  by_cases hid : id' = id
  · rw [if_pos hid, if_pos ⟨hid, hstatus⟩]
  · rw [if_neg hid, if_neg fun hboth => hid hboth.1]

theorem Watched.note_persist (doc : GoalDoc) (r : Except String Unit) :
    s.note id tool i (.db_set .engine doc) r =
      { s with ledger :=
          if doc.id = id then { s.ledger with max_steps := doc.max_steps } else s.ledger } := by
  unfold note
  dsimp only
  split_ifs <;> rfl

theorem Watched.note_call (goal_id name : String) (retry : Bool) (params : Json) (timeout_ms : Nat)
    (r : Except String Json) :
    s.note id tool i (.rpc_call goal_id retry name params timeout_ms) r =
      { s with ledger := if goal_id = id then s.ledger.sent tool name retry (s.seen i) else s.ledger } := by
  unfold note
  dsimp only
  split_ifs <;> rfl

/-- A request that is sent once more is for another tool. -/
theorem Watched.note_again {goal_id name : String} {params : Json} {timeout_ms : Nat} {r : Except String Json}
    (hname : goal_id = id → name ≠ tool) :
    s.note id tool i (.rpc_call goal_id true name params timeout_ms) r = s := by
  rw [note_call]
  split_ifs with hid
  · rw [Ledger.sent_again s.ledger (hname hid)]
  · rfl

theorem Watched.note_reply (result : Except String Response) (r : Unit) :
    s.note id tool i (.reply result) r =
      { s with holder := if s.holder = some i then none else s.holder } := by
  unfold note
  dsimp only
  split_ifs <;> rfl

/-- A request to resume has read a document. -/
theorem Spending.look (h : Spending id tool max_per_goal cooldown_ms g s) (hidle : (g i).goal = none)
    {doc : GoalDoc} {id' : String} (hdoc : s.world.docs[id']? = some doc)
    (hfree : id' = id → doc.status = .needs_confirmation → s.holder = none) :
    Spending id tool max_per_goal cooldown_ms
      (Function.update g i ((g i).learn tool (.db_get (.resume_goal true) id') (.ok (some doc))))
      { s.note id tool i (.db_get (.resume_goal true) id') (.ok (some doc)) with world := s.world } := by
  by_cases hstatus : doc.status = .needs_confirmation
  · have hlearn : (g i).learn tool (.db_get (.resume_goal true) id') (.ok (some doc)) =
        (g i).resumed tool doc := if_pos hstatus
    rw [Watched.note_approve hstatus, hlearn]
    exact h.resume hidle hdoc hstatus fun hid => hfree hid hstatus
  · have hlearn : (g i).learn tool (.db_get (.resume_goal true) id') (.ok (some doc)) = g i :=
      if_neg hstatus
    have hnote : s.note id tool i (.db_get (.resume_goal true) id') (.ok (some doc)) = s :=
      if_neg fun hboth => hstatus hboth.2
    rw [hlearn, hnote, Function.update_eq_self]
    exact h

/-- One call of a task. -/
theorem spending_act {s' : Watched} {e : Eff} {r : e.Answer}
    (h : Spending id tool max_per_goal cooldown_ms g s)
    (hallowed : (g i).Allowed id tool max_per_goal cooldown_ms e) (hw : HandleWatched id tool i s e r s')
    (hc : SentOnce id tool max_per_goal cooldown_ms s (.act i e r)) :
    ∃ k, (spending id tool max_per_goal cooldown_ms).next (g i) e r k ∧
      Spending id tool max_per_goal cooldown_ms (Function.update g i k) s' := by
  obtain ⟨⟨o, hserve⟩, hs'⟩ := hw
  generalize s'.world = w' at hserve hs'
  subst hs'
  -- the task knows what it knew, and no document that awaits a confirmation is stored
  have hsame : ∀ {w : World}, w.clock = s.world.clock → s.world.next_id ≤ w.next_id →
      (∀ (id' : String) (doc : GoalDoc), w.docs[id']? = some doc → doc.status = .needs_confirmation →
        s.world.docs[id']? = some doc) →
      Spending id tool max_per_goal cooldown_ms (Function.update g i (g i)) { s with world := w } := by
    intro w hclock hnext hdocs
    rw [Function.update_eq_self]
    exact h.frame (by rw [hclock]) hnext hdocs
  cases e with
  | now =>
    obtain ⟨rfl, rfl⟩ := Prod.mk.inj (Option.some.inj hserve)
    exact ⟨_, ⟨(h.tasks i).low, rfl⟩, h.read i⟩
  | load_catalog =>
    obtain ⟨rfl, rfl⟩ := Prod.mk.inj (Option.some.inj hserve)
    refine ⟨g i, ⟨?_, rfl⟩, hsame rfl le_rfl fun _ _ hdoc _ => hdoc⟩
    cases hr : o.catalog with
    | error e => trivial
    | ok catalog =>
      rw [hr] at hc
      exact hc
  | db_incr =>
    obtain ⟨hr, rfl⟩ := Prod.mk.inj (Option.some.inj hserve)
    cases r with
    | error e =>
      refine ⟨g i, ⟨trivial, rfl⟩, hsame ?_ ?_ ?_⟩
      · rw [Fate.write_eq]
        split_ifs <;> rfl
      · rw [Fate.write_eq]
        split_ifs
        · exact Nat.le_succ _
        · exact le_rfl
      · rw [Fate.write_eq]
        intro id' doc hdoc _
        split_ifs at hdoc <;> exact hdoc
    | ok n =>
      obtain ⟨hfate, rfl⟩ := Fate.answer_eq_ok_iff.mp hr
      have hdone : s.world.fate.done = true := by
        rw [hfate]
        rfl
      refine ⟨_, ⟨trivial, rfl⟩, ?_⟩
      rw [Watched.note_incr, Fate.write_eq, if_pos hdone]
      exact h.begin hallowed rfl
  | db_get reader id' =>
    obtain ⟨hr, rfl⟩ := Prod.mk.inj (Option.some.inj hserve)
    have hread : Spending id tool max_per_goal cooldown_ms (Function.update g i (g i)) s :=
      hsame rfl le_rfl fun _ _ hdoc _ => hdoc
    cases reader with
    | delete => exact ⟨g i, ⟨trivial, rfl⟩, hread⟩
    | resume_goal approve =>
      cases approve with
      | false => exact ⟨g i, ⟨trivial, rfl⟩, hread⟩
      | true =>
        rcases r with e | _ | doc
        · exact ⟨g i, ⟨trivial, rfl⟩, hread⟩
        · exact ⟨g i, ⟨trivial, rfl⟩, hread⟩
        · obtain ⟨-, hdoc⟩ := Fate.answer_eq_ok_iff.mp hr
          exact ⟨_, ⟨fun hstatus => (h.halted id' doc hdoc hstatus).1, rfl⟩, h.look hallowed hdoc hc⟩
  | db_set writer doc =>
    obtain ⟨rfl, rfl⟩ := Prod.mk.inj (Option.some.inj hserve)
    cases writer with
    | engine =>
      refine ⟨_, ⟨trivial, rfl⟩, ?_⟩
      rw [Watched.note_persist]
      exact h.persist hallowed
    | run_and_record =>
      exact ⟨_, ⟨trivial, rfl⟩, h.record hallowed.1 hallowed.2 hc⟩
    | resume_goal =>
      exact ⟨g i, ⟨trivial, rfl⟩, hsame (World.clock_write _ _) (World.next_id_write _ _).ge
        (World.docs_write_of_ne hallowed)⟩
  | db_delete id' =>
    obtain ⟨rfl, rfl⟩ := Prod.mk.inj (Option.some.inj hserve)
    exact ⟨g i, ⟨trivial, rfl⟩, hsame (World.clock_erase _ _) (World.next_id_erase _ _).ge
      fun id'' doc hdoc _ => World.docs_erase hdoc⟩
  | rpc_call goal_id retry name params timeout_ms =>
    obtain ⟨rfl, rfl⟩ := Prod.mk.inj (Option.some.inj hserve)
    cases retry with
    | false =>
      refine ⟨_, ⟨?_, rfl⟩, ?_⟩
      · cases hr : o.tool with
        | ok v => trivial
        | error e =>
          rw [hr] at hc
          exact hc
      · rw [Watched.note_call]
        exact h.send hallowed
    | true =>
      refine ⟨g i, ⟨trivial, rfl⟩, ?_⟩
      rw [Watched.note_again hallowed]
      exact hsame rfl le_rfl fun _ _ hdoc _ => hdoc
  | reply result =>
    obtain ⟨rfl, rfl⟩ := Prod.mk.inj (Option.some.inj hserve)
    refine ⟨_, ⟨trivial, rfl⟩, ?_⟩
    rw [Watched.note_reply]
    exact h.reply hallowed
  | panic | hang => cases hserve
  | _ =>
    obtain ⟨rfl, rfl⟩ := Prod.mk.inj (Option.some.inj hserve)
    exact ⟨g i, ⟨trivial, rfl⟩, hsame rfl le_rfl fun _ _ hdoc _ => hdoc⟩

end Run

variable {llm : Llm} {config : Config} {spawn : Nat → Spawn} {trace : List TaskLabel} {p : WatchedTasks}

/-- In every run in which a goal has one task at a time, and no request for the tool is sent once more, the
    requests for the tool and all calls for the goal keep to the quota. -/
theorem quota_is_kept (hmax : 0 < max_per_goal) (hcooldown : cooldown_ms.toNat < 2 ^ 63)
    (hrun : Run (Where (fun p l => SentOnce id tool max_per_goal cooldown_ms p.world l) (WatchedStep id tool))
      (.start llm config spawn .empty) trace p) :
    p.world.ledger.WithinQuota max_per_goal cooldown_ms := by
  have hinv : PoolInv (spending id tool max_per_goal cooldown_ms) (fun _ _ _ => True)
      (fun g _ s => Spending id tool max_per_goal cooldown_ms g s) trace p := by
    refine hrun.invariant ?_ fun trace p l p' hp hstep => ?_
    · refine ⟨fun _ => .start, ?_, fun i => spends_task hmax hcooldown llm config (spawn i)⟩
      refine ⟨⟨Nat.zero_le _, .nil, le_rfl⟩, fun i =>
        ⟨le_rfl, by rintro t ⟨⟩, iff_of_false (by rintro ⟨⟩) (by rintro ⟨⟩),
        by rintro ⟨⟩⟩, ?_, ?_, ?_⟩
      · intro id' doc hdoc
        simp [WatchedTasks.start, World.empty] at hdoc
      · intro doc hdoc
        simp [WatchedTasks.start, World.empty] at hdoc
      · intro n _ _
        refine ⟨rfl, rfl, fun doc hdoc => ?_⟩
        simp [WatchedTasks.start, World.empty] at hdoc
    · refine hp.step ?_ ?_ (hstep.1.where (fun s l => SentOnce id tool max_per_goal cooldown_ms s l) hstep.2)
      · rintro g trace s i e r s' h hallowed ⟨hw, hc⟩
        exact spending_act h hallowed hw hc
      · rintro g trace s l s' h ⟨rfl, hclock⟩
        exact h.frame (Int64.le_iff_toInt_le.mp hclock) le_rfl fun _ _ hdoc _ => hdoc
  obtain ⟨g, h, -⟩ := hinv
  exact h.within

/-! ## A tool with a quota -/

/-- A catalog that has the tool twice for a goal and twice a second, and a model and a tool that answer. -/
def metered : Outside where
  catalog := .ok {
    tools := [{
      name := "remove", description := "", parameters := .null, requires_confirmation := false
      timeout_ms := 1000, cooldown_ms := 500, max_per_goal := 2 }]
    allowed_actions := [] }
  history := []
  hits := none
  recalled := none
  chat := .ok { content := "", tool_calls := [] }
  tool := .ok .null

/-- Two requests, the second one half a second after the first, and a third turn that is refused one. -/
def meteredRun : Option (List TaskLabel × WatchedTasks) :=
  runOf (answerWatched "1" "remove" (SentOnce "1" "remove" 2 500))
    (.start insistent plain (fun _ => .goal_start { goal := "tidy up", context := "", max_steps := 0 }) .empty)
    (List.replicate 12 (.act 0 metered) ++ [.turn 500 .ok] ++ List.replicate 10 (.act 0 metered))

theorem run_meteredRun {r : List TaskLabel × WatchedTasks} (h : meteredRun = some r) :
    Run (Where (fun p l => SentOnce "1" "remove" 2 500 p.world l) (WatchedStep "1" "remove"))
      (.start insistent plain (fun _ => .goal_start { goal := "tidy up", context := "", max_steps := 0 }) .empty)
      r.1 r.2 :=
  run_runOf (fun _ _ _ _ h => watchedStep_answerWatched h) h

theorem quota_is_kept_sample : ∃ trace p,
    Run (Where (fun p l => SentOnce "1" "remove" 2 500 p.world l) (WatchedStep "1" "remove"))
      (.start insistent plain (fun _ => .goal_start { goal := "tidy up", context := "", max_steps := 0 }) .empty)
      trace p ∧
    p.world.ledger.starts = [500, 0] ∧ p.world.ledger.WithinQuota 2 500 := by
  have hsome : (meteredRun.any fun r => r.2.world.ledger.starts = [500, 0]) = true := by
    decide +kernel
  obtain ⟨⟨trace, p⟩, hr, hstarts⟩ := (Option.any_eq_true _ _).mp hsome
  have hrun := run_meteredRun hr
  exact ⟨trace, p, hrun, of_decide_eq_true hstarts, quota_is_kept (by decide) (by decide) hrun⟩

end Agent
