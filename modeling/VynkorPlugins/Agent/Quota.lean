import VynkorPlugins.Agent.Engine

/-!
# Requests for one tool

The agent over a world that notes the requests for one tool that are sent for one goal.
-/

namespace Agent

open Async

/-- What was sent for the goal: when the requests for the tool were started, the newest first, and how many
    calls of any tool were dispatched under which budget. -/
structure Ledger where
  starts : List Int64
  dispatched : Nat
  max_steps : Nat

def Ledger.empty : Ledger where
  starts := []
  dispatched := 0
  max_steps := 0

/-- A request is sent, as a new call or once more. -/
def Ledger.sent (l : Ledger) (tool name : String) (retry : Bool) (started : Int64) : Ledger :=
  { l with
    starts := if name = tool then started :: l.starts else l.starts
    dispatched := if retry then l.dispatched else l.dispatched + 1 }

structure Ledger.WithinQuota (max_per_goal : Nat) (cooldown_ms : UInt64) (l : Ledger) : Prop where
  requests : l.starts.length ≤ max_per_goal
  apart : l.starts.IsChain fun later earlier =>
    (cooldown_ms.toNat : Int) ≤ later.toInt - earlier.toInt
  dispatched : l.dispatched ≤ l.max_steps

structure Watched where
  world : World
  ledger : Ledger
  /-- What each task has last read from the clock. -/
  seen : Nat → Int64
  /-- The task that runs the goal. -/
  holder : Option Nat

namespace Watched

variable (id tool : String) (s : Watched)

/-- A call that is answered is noted. A request is started at the time that its task has last read. -/
def note (i : Nat) : (e : Eff) → e.Answer → Watched
  | .now, now => { s with seen := Function.update s.seen i now }
  | .db_incr, .ok n => if toString n = id then { s with holder := some i } else s
  | .db_get (.resume_goal true) id', .ok (some doc) =>
    if id' = id ∧ doc.status = .needs_confirmation then { s with holder := some i } else s
  | .db_set .engine doc, _ =>
    if doc.id = id then { s with ledger := { s.ledger with max_steps := doc.max_steps } } else s
  | .rpc_call goal_id retry name _ _, _ =>
    if goal_id = id then { s with ledger := s.ledger.sent tool name retry (s.seen i) } else s
  | .reply _, _ => if s.holder = some i then { s with holder := none } else s
  | _, _ => s

end Watched

def HandleWatched (id tool : String) (i : Nat) (s : Watched) (e : Eff) (r : e.Answer) (s' : Watched) :
    Prop :=
  Handle i s.world e r s'.world ∧ s' = { s.note id tool i e r with world := s'.world }

def TickWatched (s : Watched) (l : Int64 × Fate) (s' : Watched) : Prop :=
  s' = { s with world := s.world.turn l.1 l.2 }

abbrev WatchedTasks := Pool Nat Eff Eff.Answer Unit Watched

abbrev WatchedStep (id tool : String) : WatchedTasks → TaskLabel → WatchedTasks → Prop :=
  PoolStep (HandleWatched id tool) TickWatched

/-- No task has begun. -/
def WatchedTasks.start (llm : Llm) (config : Config) (spawn : Nat → Spawn) (world : World) :
    WatchedTasks where
  tasks i := (spawn i).task llm config
  world := { world, ledger := .empty, seen _ := 0, holder := none }

/-- The catalog lists the tool with its limits. -/
def Catalog.Lists (tool : String) (max_per_goal : Nat) (cooldown_ms : UInt64) (catalog : Catalog) : Prop :=
  ∃ spec ∈ catalog.get tool, spec.max_per_goal = max_per_goal ∧ spec.cooldown_ms = cooldown_ms

instance (tool : String) (max_per_goal : Nat) (cooldown_ms : UInt64) (catalog : Catalog) :
    Decidable (catalog.Lists tool max_per_goal cooldown_ms) :=
  decidable_of_iff ((catalog.get tool).any fun spec =>
    spec.max_per_goal = max_per_goal ∧ spec.cooldown_ms = cooldown_ms) <| by
    unfold Catalog.Lists
    cases catalog.get tool <;> simp

/-- No request for the tool is sent twice for one call, no two approvals run the goal at once, and the
    document of a failed run is stored. The catalog lists the tool, and the clock does not go back. -/
def SentOnce (id tool : String) (max_per_goal : Nat) (cooldown_ms : UInt64) (s : Watched) :
    TaskLabel → Prop
  | .act _ .load_catalog (.ok catalog) => catalog.Lists tool max_per_goal cooldown_ms
  | .act _ (.db_get (.resume_goal true) id') (.ok (some doc)) =>
    id' = id → doc.status = .needs_confirmation → s.holder = none
  | .act _ (.db_set .run_and_record doc) _ => doc.id = id → s.world.fate.done = true
  | .act _ (.rpc_call goal_id false name _ _) (.error err) =>
    goal_id = id → name = tool → is_device_target name = true → is_retryable_device_error err = false
  | .env (clock, _) => s.world.clock ≤ clock
  | _ => True

instance (id tool : String) (max_per_goal : Nat) (cooldown_ms : UInt64) (s : Watched) (l : TaskLabel) :
    Decidable (SentOnce id tool max_per_goal cooldown_ms s l) := by
  unfold SentOnce
  split <;> infer_instance

/-! ## Runs that are computed -/

def answerWatched (id tool : String) (cond : Watched → TaskLabel → Prop)
    [∀ s l, Decidable (cond s l)] (p : WatchedTasks) : TaskRequest → Option (TaskLabel × WatchedTasks)
  | .act i o =>
    match p.tasks i with
    | .done _ => none
    | .call e k =>
      match p.world.world.serve o e with
      | none => none
      | some (r, world) =>
        if cond p.world (.act i e r) then
          some (.act i e r,
            { tasks := Function.update p.tasks i (k r)
              world := { p.world.note id tool i e r with world } })
        else none
  | .turn clock fate =>
    if cond p.world (.env (clock, fate)) then
      some (.env (clock, fate), { p with world := { p.world with world := p.world.world.turn clock fate } })
    else none

theorem watchedStep_answerWatched {id tool : String} {cond : Watched → TaskLabel → Prop}
    [∀ s l, Decidable (cond s l)] {p p' : WatchedTasks} {a : TaskRequest} {l : TaskLabel}
    (h : answerWatched id tool cond p a = some (l, p')) :
    Transition.Where (fun p l => cond p.world l) (WatchedStep id tool) p l p' := by
  unfold answerWatched at h
  split at h
  · rename_i i o
    split at h
    · cases h
    · rename_i e k htask
      split at h
      · cases h
      · rename_i r world hserve
        split_ifs at h with hc
        obtain ⟨rfl, rfl⟩ := Prod.mk.inj (Option.some.inj h)
        exact ⟨.act htask ⟨⟨o, hserve⟩, rfl⟩, hc⟩
  · rename_i clock fate
    split_ifs at h with hc
    obtain ⟨rfl, rfl⟩ := Prod.mk.inj (Option.some.inj h)
    exact ⟨.env rfl, hc⟩

end Agent
