import VynkorPlugins.Base.Async
import VynkorPlugins.Uptime.Tasks

/-!
# The monitor, its database and the bus

Any number of tasks over one database. Whether the calls to it fail and what the checks find changes
by itself at any time; a call that fails has no effect. Beside them the world keeps a history of the
run, which no task reads.
-/

namespace Uptime

open Async

/-- What has happened to each target. -/
structure History where
  /-- The requests that have drawn the id of a target and have not stored it yet. -/
  drafts : String → List Nat
  /-- The scans that have a target still to check. -/
  to_check : String → List Nat
  /-- The scans that have begun to read the states and have not ended. -/
  scanning : List Nat
  /-- The target of the last check of a scan, and whether it was there. -/
  checked : Nat → Option (String × Bool)
  /-- The failed checks of a target in a row. -/
  fails : String → Nat
  /-- The turns of the stored state of a target that a scan has made, the first one first, with the
      failed checks in a row at each. -/
  turned : String → Nat → List (Alert × Nat)
  /-- The alerts of a target that a scan has put on the bus. -/
  alerted : String → Nat → List Alert
  /-- The alerts of a target on the bus. -/
  bus : String → List Alert
  ended : List Nat

def History.empty : History where
  drafts _ := []
  to_check _ := []
  scanning := []
  checked _ := none
  fails _ := 0
  turned _ _ := []
  alerted _ _ := []
  bus _ := []
  ended := []

/-- The documents are stored under their ids. -/
structure World where
  targets : Table String Target
  states : Table String TargetState
  checks : Table String Check
  keyed : ∀ (id : String) (t : Target), targets[id]? = some t → t.id = id
  next_target_id : Nat
  next_check_id : Nat
  clock : Int64
  /-- The error of the next call, if it fails. -/
  failure : Option String
  /-- What the next check finds, and how long it takes. -/
  answer : Except String Json × UInt64
  history : History

/-! ## History -/

namespace History

variable (h : History) (i : Nat)

/-- A request has an id for a new target. -/
def draw (id : String) : History :=
  { h with drafts := Function.update h.drafts id (i :: h.drafts id) }

/-- A request has stored its target, or has failed to. -/
def draft_done (id : String) : History :=
  { h with drafts := Function.update h.drafts id ((h.drafts id).erase i) }

/-- A scan lists the targets. -/
def list_targets (targets : List Target) : Spawn → History
  | .request _ => h
  | .tick =>
    { h with
      to_check := fun id => if id ∈ targets.map Target.id then i :: h.to_check id else h.to_check id }

/-- A scan begins to read the states. -/
def list_states : Spawn → History
  | .request _ => h
  | .tick => { h with scanning := i :: h.scanning }

/-- A target is checked. -/
def check (id : String) (ok : Bool) : History :=
  { h with
    checked := Function.update h.checked i (some (id, ok))
    fails := Function.update h.fails id (if ok then 0 else h.fails id + 1) }

/-- A scan is done with a target. -/
def check_done : Option (String × Bool) → History
  | some (id, _) => { h with to_check := Function.update h.to_check id ((h.to_check id).erase i) }
  | none => h

/-- A state is stored over another one. -/
def turn (id : String) (before after : Bool) : History :=
  if before = after then h
  else
    { h with
      turned := Function.update h.turned id
        (Function.update (h.turned id) i
          (h.turned id i ++
            [(if after then .check_failed else .recovered, h.fails id)])) }

/-- An alert is put on the bus. -/
def put_alert (id : String) (alert : Alert) : History :=
  { h with
    alerted := Function.update h.alerted id
      (Function.update (h.alerted id) i (h.alerted id i ++ [alert]))
    bus := Function.update h.bus id (h.bus id ++ [alert]) }

/-- The task of a scan ends. -/
def end_scan : History :=
  { h with
    to_check := fun id => (h.to_check id).erase i
    scanning := h.scanning.erase i
    ended := i :: h.ended }

end History

/-! ## Steps -/

namespace World

variable (w : World)

/-- A call that may fail, without an effect if it does. -/
def call {α : Type} (a : α) (w' : World) : Except String α × World :=
  match w.failure with
  | none => (.ok a, w')
  | some e => (.error e, w)

def target_rows (keys : List String) : List Target :=
  (w.targets.selectWhere fun id _ => id ∈ keys).map Prod.snd

def state_rows (keys : List String) : Table String TargetState :=
  w.states.filter fun id _ => id ∈ keys

def check_rows (keys : List String) : List Check :=
  (w.checks.selectWhere fun id _ => id ∈ keys).map Prod.snd

/-- The stored state of a target. -/
def state (id : String) : TargetState :=
  w.states[id]?.getD .default

def put_target (t : Target) : World :=
  { w with
    targets := w.targets.insert t.id t
    keyed := by
      intro id t' h
      rw [Table.getElem?_insert_ite] at h
      split_ifs at h with hid
      · obtain rfl := Option.some.inj h
        exact hid
      · exact w.keyed id t' h }

def delete_target (id : String) : World :=
  { w with
    targets := w.targets.erase id
    keyed := by
      intro id' t h
      rw [Table.getElem?_erase_ite] at h
      split_ifs at h
      exact w.keyed id' t h }

def keys : Prefix → List String
  | .target => w.targets.keys
  | .check => w.checks.keys
  | .state => w.states.keys

/-- What a task is answered, and what becomes of the world. -/
def serve (spawn : Spawn) (i : Nat) : (e : Eff) → World → e.Answer × World
  | .now, w => (w.clock, w)
  | .db_keys .state, w =>
    w.call w.states.keys { w with history := w.history.list_states i spawn }
  | .db_keys space, w => w.call (w.keys space) w
  | .get_targets keys, w =>
    w.call (w.target_rows keys) { w with
      history := w.history.list_targets i (w.target_rows keys) spawn }
  | .get_states keys, w => w.call (w.state_rows keys) w
  | .get_checks keys, w => w.call (w.check_rows keys) w
  | .db_incr .next_target_id, w =>
    w.call (w.next_target_id + 1) { w with
      next_target_id := w.next_target_id + 1
      history := w.history.draw i (toString (w.next_target_id + 1)) }
  | .db_incr .next_check_id, w =>
    w.call (w.next_check_id + 1) { w with next_check_id := w.next_check_id + 1 }
  | .put_target t, w =>
    let r := w.call () (w.put_target t)
    (r.1, { r.2 with history := w.history.draft_done i t.id })
  | .delete_target id, w => w.call (w.targets.contains id) (w.delete_target id)
  | .put_state id st, w =>
    w.call () { w with
      states := w.states.insert id st
      history := w.history.turn i id (w.state id).alerting st.alerting }
  | .delete_state id, w => w.call () { w with states := w.states.erase id }
  | .put_check c, w =>
    let r := w.call () { w with checks := w.checks.insert c.id c }
    (r.1, { r.2 with history := w.history.check_done i (w.history.checked i) })
  | .delete_check id, w => w.call (w.checks.contains id) { w with checks := w.checks.erase id }
  | .http_request target _ _, w =>
    (w.answer,
      match target with
      | none => w
      | some id => { w with
          history := w.history.check i id (CheckResult.of w.answer.1 w.answer.2).ok })
  | .alert target alert _, w => ((), { w with history := w.history.put_alert i target alert })
  | .publish .., w => ((), w)
  | .reply _, w => ((), w)
  | .ended, w => ((), { w with history := w.history.end_scan i })

end World

/-- A task is answered by the world as it is. -/
def Handle (spawn : Nat → Spawn) (i : Nat) (w : World) (e : Eff) (r : e.Answer) (w' : World) : Prop :=
  World.serve (spawn i) i e w = (r, w')

/-- What changes by itself: the clock, whether the calls fail, and what the checks find. -/
structure Weather where
  clock : Int64
  failure : Option String
  answer : Except String Json × UInt64

def World.turn (w : World) (l : Weather) : World :=
  { w with clock := l.clock, failure := l.failure, answer := l.answer }

def Turn (w : World) (l : Weather) (w' : World) : Prop := w' = w.turn l

abbrev Tasks := Pool Nat Eff Eff.Answer Unit World

abbrev TaskLabel := PoolLabel Nat Eff Eff.Answer Weather

abbrev TaskStep (spawn : Nat → Spawn) : Tasks → TaskLabel → Tasks → Prop :=
  PoolStep (Handle spawn) Turn

/-- The database is empty. -/
def World.empty : World where
  targets := ∅
  states := ∅
  checks := ∅
  keyed id t h := by simp at h
  next_target_id := 0
  next_check_id := 0
  clock := 0
  failure := none
  answer := (.error "", 0)
  history := .empty

/-- No task has begun. -/
def Tasks.start (config : Config) (spawn : Nat → Spawn) : Tasks where
  tasks i := (spawn i).task config
  world := .empty

/-! ## Alerts -/

/-- The alerts alternate, the first one being of a failure. -/
def Alternates (alerts : List Alert) : Prop :=
  ∀ n alert, alerts[n]? = some alert → alert = if n % 2 = 0 then .check_failed else .recovered

/-- The alerts of a target are as its checks ask for. -/
structure Alerts (threshold : Nat) (target : String) (w : World) : Prop where
  alternate : Alternates (w.history.bus target)
  /-- A scan puts an alert on the bus for its turns of the stored state, -/
  turns : ∀ i, w.history.alerted target i <+: (w.history.turned target i).map Prod.fst
  /-- for each of them until it ends, -/
  all : ∀ i ∈ w.history.ended,
    w.history.alerted target i = (w.history.turned target i).map Prod.fst
  /-- and the state turns on after as many failed checks in a row as the threshold. -/
  outage : ∀ i, ∀ t ∈ w.history.turned target i, t.1 = .check_failed → threshold ≤ t.2

/-- The stored state counts failed checks that have not alerted. -/
def World.Counting (w : World) (target : String) : Prop :=
  (w.state target).alerting = false ∧ 0 < (w.state target).fail_streak

/-- A scan reads the states while no other one is under way; a call that ends a scan does not fail
    while an alert is still to be put on the bus, and neither this one nor the write of a state fails
    after a check that ends a count; and the state of a target that has alerted is deleted when the
    target is gone and no scan has it still to check. -/
def Undisturbed (spawn : Nat → Spawn) (target : String) (w : World) : TaskLabel → Prop
  | .act i (.db_keys .state) (.ok _) =>
    match spawn i with
    | .tick => w.history.scanning = []
    | .request _ => True
  | .act i (.db_incr .next_check_id) (.error _) =>
    match spawn i with
    | .tick =>
      w.history.alerted target i = (w.history.turned target i).map Prod.fst ∧
        (w.history.checked i = some (target, true) → ¬ w.Counting target)
    | .request _ => True
  | .act _ (.put_state id st) (.error _) =>
    id = target → st.fail_streak = 0 → ¬ w.Counting target
  | .act _ (.delete_state id) (.ok _) =>
    id = target → (w.state target).alerting = true →
      w.targets[target]? = none ∧ w.history.to_check target = []
  | _ => True

instance (w : World) (target : String) : Decidable (w.Counting target) := by
  unfold World.Counting
  infer_instance

instance (spawn : Nat → Spawn) (target : String) (w : World) (l : TaskLabel) :
    Decidable (Undisturbed spawn target w l) := by
  unfold Undisturbed
  split
  · split <;> infer_instance
  · split <;> infer_instance
  · infer_instance
  · have : Decidable (w.targets[target]? = none) := decidable_of_iff _ Option.isNone_iff_eq_none
    infer_instance
  · infer_instance

/-! ## Runs that are computed -/

/-- A task moves, or what changes by itself does. -/
inductive TaskRequest where
  | act (i : Nat)
  | turn (l : Weather)

def answerTask (spawn : Nat → Spawn) (cond : World → TaskLabel → Prop)
    [∀ w l, Decidable (cond w l)] (p : Tasks) : TaskRequest → Option (TaskLabel × Tasks)
  | .act i =>
    match p.tasks i with
    | .done _ => none
    | .call e k =>
      let served := World.serve (spawn i) i e p.world
      if cond p.world (.act i e served.1) then
        some (.act i e served.1,
          { tasks := Function.update p.tasks i (k served.1), world := served.2 })
      else none
  | .turn l =>
    if cond p.world (.env l) then some (.env l, { p with world := p.world.turn l }) else none

theorem taskStep_answerTask {spawn : Nat → Spawn} {cond : World → TaskLabel → Prop}
    [∀ w l, Decidable (cond w l)] {p p' : Tasks} {a : TaskRequest} {l : TaskLabel}
    (h : answerTask spawn cond p a = some (l, p')) :
    Transition.Where (fun p l => cond p.world l) (TaskStep spawn) p l p' := by
  unfold answerTask at h
  split at h
  · rename_i i
    split at h
    · cases h
    · rename_i e k htask
      simp only at h
      split_ifs at h with hc
      obtain ⟨rfl, rfl⟩ := Prod.mk.inj (Option.some.inj h)
      exact ⟨.act htask rfl, hc⟩
  · rename_i l
    split_ifs at h with hc
    obtain ⟨rfl, rfl⟩ := Prod.mk.inj (Option.some.inj h)
    exact ⟨.env rfl, hc⟩

end Uptime
