import VynkorPlugins.Automations.Rules
import VynkorPlugins.Base.Table

/-!
# The tasks and their world

Any number of tasks over one store of rules. A task moves at each of its awaits; a restart of the
process is a point from which on the tasks that have begun move no more. Beside the store and the
clock the world keeps a history of the run, which no task reads.
-/

namespace Automations

open Async

/-- A request that was acknowledged: the rule as it was requested, or its deletion. -/
structure Acked where
  task : Nat
  rule : Option RuleDoc

/-- What has happened to each rule. -/
structure History where
  /-- The marks of its dispatches, the latest one first. -/
  fired : String → List Int64
  /-- Those of these dispatches that the stored rule knows of. -/
  stored_marks : String → List Int64
  /-- Those of these dispatches that the copy of a task knows of. -/
  copied_marks : Nat → String → List Int64
  /-- The last acknowledged request, if no request on the rule has begun since. -/
  latest : String → Option Acked
  /-- The same, when a task began. -/
  latest_at_start : Nat → String → Option Acked
  /-- How often a request has written the rule. -/
  changes : String → Nat
  /-- The same, when a task read the rules. -/
  changes_at_copy : Nat → String → Nat
  /-- The same, right after the write of a request. -/
  changes_at_write : Nat → Nat

def History.empty : History where
  fired _ := []
  stored_marks _ := []
  copied_marks _ _ := []
  latest _ := none
  latest_at_start _ _ := none
  changes _ := 0
  changes_at_copy _ _ := 0
  changes_at_write _ := 0

/-- The rules are stored under their ids. -/
structure World where
  rules : Table String RuleDoc
  keyed : ∀ (id : String) (rule : RuleDoc), rules[id]? = some rule → rule.id = id
  next_id : Nat
  now : Int64
  now_nonneg : 0 ≤ now
  history : History

/-! ## History -/

namespace History

variable (h : History) (i : Nat)

/-- A task begins. -/
def receive : Spawn → History
  | .event .. => { h with latest_at_start := Function.update h.latest_at_start i h.latest }
  | .request (.RuleSet doc) => { h with latest := Function.update h.latest doc.id none }
  | .request (.RuleDelete id) => { h with latest := Function.update h.latest id none }
  | .request _ => h

/-- A task reads the rules. -/
def copy : History :=
  { h with
    copied_marks := Function.update h.copied_marks i h.stored_marks
    changes_at_copy := Function.update h.changes_at_copy i h.changes }

/-- A task has an id for a new rule. -/
def draw (id : String) : History :=
  { h with copied_marks := Function.update h.copied_marks i (Function.update (h.copied_marks i) id []) }

/-- A request writes a rule. -/
def change (id : String) : Spawn → History
  | .event .. => h
  | .request _ =>
    { h with
      changes := Function.update h.changes id (h.changes id + 1)
      changes_at_write := Function.update h.changes_at_write i (h.changes id + 1) }

/-- A task stores its copy of a rule. -/
def put (id : String) : History :=
  { h with stored_marks := Function.update h.stored_marks id (h.copied_marks i id) }

/-- A task dispatches a rule. -/
def dispatch (rule : RuleDoc) : History :=
  { h with
    fired := Function.update h.fired rule.id (rule.last_fired_ms :: h.fired rule.id)
    copied_marks :=
      Function.update h.copied_marks i
        (Function.update (h.copied_marks i) rule.id (rule.last_fired_ms :: h.copied_marks i rule.id)) }

/-- A task answers its request. -/
def reply : Spawn → Except String Reply → History
  | .request (.RuleSet doc), .ok (.stored id) =>
    { h with latest := Function.update h.latest id (some { task := i, rule := some { doc with id } }) }
  | .request (.RuleDelete id), .ok _ =>
    { h with latest := Function.update h.latest id (some { task := i, rule := none }) }
  | _, _ => h

end History

/-! ## Steps -/

/-- How a call to another plugin ends: in time, or with an error before or after it was done. -/
inductive Fate where
  | ok
  | refused (e : String)
  | applied (e : String)

def Fate.answer {α : Type} (a : α) : Fate → Except String α
  | .ok => .ok a
  | .refused e | .applied e => .error e

def Fate.write (w w' : World) : Fate → World
  | .refused _ => w
  | .ok | .applied _ => w'

namespace World

variable (w : World)

/-- `db_batch_get`. -/
def rows (keys : List String) : List RuleDoc :=
  (w.rules.selectWhere fun id _ => id ∈ keys).map Prod.snd

def put (spawn : Spawn) (i : Nat) (rule : RuleDoc) : World :=
  { w with
    rules := w.rules.insert rule.id rule
    keyed := by
      intro id rule' h
      rw [Table.getElem?_insert_ite] at h
      split_ifs at h with hid
      · obtain rfl := Option.some.inj h
        exact hid
      · exact w.keyed id rule' h
    history := (w.history.put i rule.id).change i rule.id spawn }

def delete (spawn : Spawn) (i : Nat) (id : String) : World :=
  { w with
    rules := w.rules.erase id
    keyed := by
      intro id' rule h
      rw [Table.getElem?_erase_ite] at h
      split_ifs at h
      exact w.keyed id' rule h
    history := w.history.change i id spawn }

/-- What a task is answered, and what becomes of the world. -/
def serve (spawn : Spawn) (i : Nat) : (e : Eff) → Fate → World → e.Answer × World
  | .received, _, w => ((), { w with history := w.history.receive i spawn })
  | .now, _, w => (w.now, w)
  | .db_keys, fate, w => (fate.answer w.rules.keys, w)
  | .db_batch_get keys, fate, w =>
    (fate.answer (w.rows keys), { w with history := w.history.copy i })
  | .db_get id, fate, w => (fate.answer w.rules[id]?, { w with history := w.history.copy i })
  | .db_set rule, fate, w => (fate.answer (), fate.write w (w.put spawn i rule))
  | .db_delete id, fate, w =>
    (fate.answer (w.rules.contains id), fate.write w (w.delete spawn i id))
  | .db_incr, fate, w =>
    let id := w.next_id + 1
    (fate.answer id, fate.write w { w with
      next_id := id
      history := w.history.draw i (toString id) })
  | .call_action rule _, fate, w =>
    (fate.answer (), { w with history := w.history.dispatch i rule })
  | .publish .., _, w => ((), w)
  | .reply result, _, w => ((), { w with history := w.history.reply i spawn result })

end World

/-- Any effect may have any fate. -/
def Handle (spawn : Nat → Spawn) (i : Nat) (w : World) (e : Eff) (r : e.Answer) (w' : World) : Prop :=
  ∃ fate, World.serve (spawn i) i e fate w = (r, w')

/-- The clock does not go back. -/
inductive Tick : World → Int64 → World → Prop
  | tick {w : World} {now : Int64} (h : w.now ≤ now) :
      Tick w now { w with now, now_nonneg := Int64.le_trans w.now_nonneg h }

abbrev Tasks := Pool Nat Eff Eff.Answer Unit World

abbrev TaskLabel := PoolLabel Nat Eff Eff.Answer Int64

abbrev TaskStep (spawn : Nat → Spawn) : Tasks → TaskLabel → Tasks → Prop :=
  PoolStep (Handle spawn) Tick

/-- No task has begun. -/
def Tasks.start (subscribed : List String) (spawn : Nat → Spawn) (world : World) : Tasks where
  tasks i := (spawn i).task subscribed
  world := { world with history := .empty }

/-! ## Runs that are computed -/

/-- A task moves, or the clock does. -/
inductive TaskRequest where
  | act (i : Nat) (fate : Fate)
  | tick (now : Int64)

def answerTask (spawn : Nat → Spawn) (cond : World → TaskLabel → Prop) [∀ w l, Decidable (cond w l)]
    (p : Tasks) : TaskRequest → Option (TaskLabel × Tasks)
  | .act i fate =>
    match p.tasks i with
    | .done _ => none
    | .call e k =>
      let served := World.serve (spawn i) i e fate p.world
      if cond p.world (.act i e served.1) then
        some (.act i e served.1,
          { tasks := Function.update p.tasks i (k served.1), world := served.2 })
      else none
  | .tick now =>
    if h : p.world.now ≤ now then
      if cond p.world (.env now) then
        some (.env now,
          { p with world := { p.world with now, now_nonneg := Int64.le_trans p.world.now_nonneg h } })
      else none
    else none

theorem taskStep_answerTask {spawn : Nat → Spawn} {cond : World → TaskLabel → Prop}
    [∀ w l, Decidable (cond w l)] {p p' : Tasks} {a : TaskRequest} {l : TaskLabel}
    (h : answerTask spawn cond p a = some (l, p')) :
    Transition.Where (fun p l => cond p.world l) (TaskStep spawn) p l p' := by
  unfold answerTask at h
  split at h
  · rename_i i fate
    split at h
    · cases h
    · rename_i e k htask
      simp only at h
      split_ifs at h with hc
      obtain ⟨rfl, rfl⟩ := Prod.mk.inj (Option.some.inj h)
      exact ⟨.act htask ⟨fate, rfl⟩, hc⟩
  · rename_i now
    split_ifs at h with hle hc
    obtain ⟨rfl, rfl⟩ := Prod.mk.inj (Option.some.inj h)
    exact ⟨.env (.tick hle), hc⟩

/-! ## Dispatches -/

/-- Any two dispatches of a rule are this far apart. -/
def Spaced (w : World) (id : String) (cooldown_ms : UInt64) : Prop :=
  (w.history.fired id).Pairwise fun a b => cooldown_ms.toNat ≤ (a.toInt - b.toInt).natAbs

/-- The requests that write a rule keep its cooldown. -/
def KeepsCooldown (spawn : Nat → Spawn) (id : String) (cooldown_ms : UInt64) : TaskLabel → Prop
  | .act i (.db_set rule) _ =>
    match spawn i with
    | .request _ => rule.id = id → rule.cooldown_ms = cooldown_ms
    | .event .. => True
  | _ => True

/-- A task dispatches a rule from a copy that knows of every dispatch so far: the mark of each one
    was stored when the task read the rules. -/
def Informed (w : World) (id : String) : TaskLabel → Prop
  | .act i (.call_action rule _) _ =>
    rule.id = id → w.history.copied_marks i id = w.history.fired id
  | _ => True

/-- The steps of a run in which no mark is lost and the cooldown is kept. -/
def Marked (spawn : Nat → Spawn) (id : String) (cooldown_ms : UInt64) (w : World) (l : TaskLabel) :
    Prop :=
  Informed w id l ∧ KeepsCooldown spawn id cooldown_ms l

instance (spawn : Nat → Spawn) (id : String) (c : UInt64) (l : TaskLabel) :
    Decidable (KeepsCooldown spawn id c l) := by
  unfold KeepsCooldown
  split
  · split <;> infer_instance
  · infer_instance

instance (w : World) (id : String) (l : TaskLabel) : Decidable (Informed w id l) := by
  unfold Informed
  split <;> infer_instance

instance (spawn : Nat → Spawn) (id : String) (c : UInt64) (w : World) (l : TaskLabel) :
    Decidable (Marked spawn id c w l) := by
  unfold Marked
  infer_instance

instance (w : World) (id : String) (c : UInt64) : Decidable (Spaced w id c) := by
  unfold Spaced
  infer_instance

/-! ## Settings -/

/-- What a request says of a rule. -/
structure Settings where
  name : String
  enabled : Bool
  trigger : Trigger
  conditions : List Condition
  action : ActionSpec
  requires_confirmation : Bool
  cooldown_ms : UInt64

def RuleDoc.settings (rule : RuleDoc) : Settings where
  name := rule.name
  enabled := rule.enabled
  trigger := rule.trigger
  conditions := rule.conditions
  action := rule.action
  requires_confirmation := rule.requires_confirmation
  cooldown_ms := rule.cooldown_ms

/-- The stored rule is as an acknowledged request wants it. -/
def Agrees (stored : Option RuleDoc) : Option RuleDoc → Prop
  | none => stored = none
  | some req => ∃ rule, stored = some rule ∧ rule.settings = req.settings

/-- Each rule is as the last acknowledged request on it wants it, unless another one has begun. -/
def Sticks (w : World) : Prop :=
  ∀ (id : String) (acked : Acked), w.history.latest id = some acked → Agrees w.rules[id]? acked.rule

/-- A deleted rule is not dispatched, and a rule that was set before the task began is dispatched as
    it was set. -/
def DispatchSticks (spawn : Nat → Spawn) (w : World) : TaskLabel → Prop
  | .act i (.call_action rule params) _ =>
    ∀ acked, w.history.latest rule.id = some acked →
      ∃ req, acked.rule = some req ∧
        ∀ before, w.history.latest_at_start i rule.id = some before → before.task = acked.task →
          ∃ event_type payload, spawn i = .event event_type payload ∧
            req.enabled = true ∧ req.requires_confirmation = false ∧
            req.trigger.event_type = event_type ∧ req.conditions_hold payload = true ∧
            rule.settings = req.settings ∧ params = req.params payload
  | _ => True

/-- No step of a task undoes a request: an event task writes a rule only if no request has written it
    since the task read it, and dispatches only a rule that is still stored; a request writes a rule
    only if no other one was acknowledged since it began, and is acknowledged only if no other one has
    written the rule since its own write; and none asks for an enabled rule to be disabled. -/
def Undisturbed (spawn : Nat → Spawn) (w : World) : TaskLabel → Prop
  | .act i (.db_set rule) _ =>
    match spawn i with
    | .event .. => w.history.changes_at_copy i rule.id = w.history.changes rule.id
    | .request _ => w.history.latest rule.id = none
  | .act _ (.db_delete id) _ => w.history.latest id = none
  | .act _ (.call_action rule _) _ => w.rules[rule.id]?.isSome = true
  | .act i (.db_get id) _ =>
    match spawn i with
    | .request (.RuleSet doc) => doc.enabled = false → w.rules[id]?.any RuleDoc.enabled = false
    | _ => True
  | .act i (.reply (.ok reply)) _ =>
    match spawn i, reply with
    | .request (.RuleSet _), .stored id | .request (.RuleDelete id), _ =>
      w.history.changes_at_write i = w.history.changes id
    | _, _ => True
  | _ => True

instance (spawn : Nat → Spawn) (w : World) (l : TaskLabel) : Decidable (Undisturbed spawn w l) := by
  unfold Undisturbed
  split
  · split <;> infer_instance
  · infer_instance
  · infer_instance
  · split <;> infer_instance
  · split <;> infer_instance
  · infer_instance

end Automations
