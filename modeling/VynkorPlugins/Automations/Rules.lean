import Mathlib.Data.List.Sort
import VynkorPlugins.Base.Async
import VynkorPlugins.Base.Pointer

/-!
# Templates

The placeholders of an action's parameters (`template.rs`).
-/

namespace Automations.Template

/-- The pointer of a text that is one placeholder. -/
def wholePlaceholder (s : List Char) : Option (List Char) :=
  if ['{', '{'].isPrefixOf s ∧ ['}', '}'].isSuffixOf (s.drop 2) then
    let ptr := (s.drop 2).take (s.length - 4)
    if ptr.head? = some '/' ∧ Rust.find ['}', '}'] ptr = none ∧ Rust.find ['{', '{'] ptr = none then
      some ptr
    else none
  else none

/-- How a pointed value is written inside of a text. -/
def interpolated (payload : Json) (ptr : List Char) : List Char :=
  match payload.pointer ptr with
  | some (.str v) => v.toList
  | some v => v.chars
  | none => []

/-- The loop of `render_str`, each pass of which takes characters from the text. -/
def interpolate (payload : Json) : Nat → List Char → List Char
  | 0, rest => rest
  | fuel + 1, rest =>
    match Rust.find ['{', '{', '/'] rest with
    | none => rest
    | some (literal, after) =>
      match Rust.find ['}', '}'] after with
      | none => rest
      | some (ptr, rest') =>
        literal ++ interpolated payload ('/' :: ptr) ++ interpolate payload fuel rest'

def render_str (s : String) (payload : Json) : Json :=
  match wholePlaceholder s.toList with
  | some ptr => (payload.pointer ptr).getD .null
  | none => .str (String.ofList (interpolate payload s.toList.length s.toList))

mutual

/-- Returns the template with every placeholder resolved against the payload. -/
def render (payload : Json) : Json → Json
  | .str s => render_str s payload
  | .arr items => .arr (renderItems payload items)
  | .obj fs => .obj (renderFields payload fs)
  | other => other

def renderItems (payload : Json) : List Json → List Json
  | [] => []
  | v :: vs => render payload v :: renderItems payload vs

def renderFields (payload : Json) : List (String × Json) → List (String × Json)
  | [] => []
  | (k, v) :: fs => (k, render payload v) :: renderFields payload fs

end

mutual

/-- Whether a template holds at least one placeholder. -/
def has_placeholders : Json → Bool
  | .str s => (Rust.find ['{', '{', '/'] s.toList).isSome
  | .arr items => anyItem items
  | .obj fs => anyField fs
  | _ => false

def anyItem : List Json → Bool
  | [] => false
  | v :: vs => has_placeholders v || anyItem vs

def anyField : List (String × Json) → Bool
  | [] => false
  | (_, v) :: fs => has_placeholders v || anyField fs

end

end Automations.Template

/-!
## Rules

The rules of the `automations` plugin (`store.rs`), the requests on them (`apply`) and what an event
makes of them (`on_event`). The tasks await the database, the clock and the actions they dispatch.
-/

namespace Automations

structure Condition where
  path : String
  equals : Json

structure Trigger where
  event_type : String

structure ActionSpec where
  target_action : String
  params_json : Json

structure RuleDoc where
  id : String
  name : String
  enabled : Bool
  trigger : Trigger
  conditions : List Condition
  action : ActionSpec
  requires_confirmation : Bool
  cooldown_ms : UInt64
  last_fired_ms : Int64
  last_error : String
  fire_count : UInt64
  created_at_ms : Int64
  updated_at_ms : Int64

namespace RuleDoc

def conditions_hold (rule : RuleDoc) (payload : Json) : Bool :=
  rule.conditions.all fun c =>
    let actual := if c.path = "" then some payload else payload.pointer c.path.toList
    (actual.map fun v => v.same c.equals).getD false

/-- The subtraction and the cast wrap around. -/
def cooldown_ok (rule : RuleDoc) (now_ms : Int64) : Bool :=
  rule.cooldown_ms = 0 || rule.cooldown_ms.toInt64 ≤ now_ms - rule.last_fired_ms

end RuleDoc

inductive AutomationRequest where
  | RuleSet (doc : RuleDoc)
  | RuleGet (id : String)
  | RuleList
  | RuleDelete (id : String)

/-- The answers, before they are encoded. -/
inductive Reply where
  | stored (id : String)
  | rule (rule : Option RuleDoc)
  | rules (rules : List RuleDoc)
  | deleted (deleted : Bool)

/-! ## What a task awaits -/

/-- `received` is the start of the task, and `reply` the answer that it sends. The rule that an action
    is called for is told along. -/
inductive Eff where
  | received
  | now
  | db_keys
  | db_batch_get (keys : List String)
  | db_get (id : String)
  | db_set (rule : RuleDoc)
  | db_delete (id : String)
  | db_incr
  | call_action (rule : RuleDoc) (params : Json)
  | publish (kind : String) (payload : Json)
  | reply (result : Except String Reply)

/-- The calls to other plugins come back with an error where they fail. -/
@[reducible] def Eff.Answer : Eff → Type
  | .received => Unit
  | .now => Int64
  | .db_keys => Except String (List String)
  | .db_batch_get _ => Except String (List RuleDoc)
  | .db_get _ => Except String (Option RuleDoc)
  | .db_set _ => Except String Unit
  | .db_delete _ => Except String Bool
  | .db_incr => Except String Nat
  | .call_action .. => Except String Unit
  | .publish .. => Unit
  | .reply _ => Unit

abbrev Act (α : Type) := Async Eff Eff.Answer α

def await (e : Eff) : Act e.Answer := Async.perform e

namespace Db

def next_id : Act (Except String Nat) := await .db_incr

def put (rule : RuleDoc) : Act (Except String Unit) := await (.db_set rule)

def get (id : String) : Act (Except String (Option RuleDoc)) := await (.db_get id)

/-- The documents whose keys are listed: two calls, between which other tasks may move. -/
def list : Act (Except String (List RuleDoc)) := do
  match ← await .db_keys with
  | .error e => return .error e
  | .ok keys => if keys = [] then return .ok [] else await (.db_batch_get keys)

def delete (id : String) : Act (Except String Bool) := await (.db_delete id)

end Db

def now_ms : Act Int64 := await .now

/-! ## Requests -/

def MAX_RULES : Nat := 200

/-- The rule that an update stores. An enabled rule stays so. -/
def RuleDoc.merged (doc existing : RuleDoc) : RuleDoc :=
  { doc with
    created_at_ms := existing.created_at_ms
    last_fired_ms := existing.last_fired_ms
    fire_count := existing.fire_count
    last_error := existing.last_error
    enabled := if !doc.enabled && existing.enabled then true else doc.enabled }

/-- The last part of `RuleSet`. -/
def store (doc : RuleDoc) : Act (Except String Reply) := do
  let now ← now_ms
  match ← Db.put { doc with updated_at_ms := now } with
  | .error e => return .error e
  | .ok () => return .ok (.stored doc.id)

def rule_set (doc : RuleDoc) : Act (Except String Reply) := do
  if doc.id = "" then
    match ← Db.list with
    | .error e => return .error e
    | .ok rules =>
      if MAX_RULES ≤ rules.length then
        return .error ("rule cap reached (" ++ toString MAX_RULES ++ ")")
      else
        match ← Db.next_id with
        | .error e => return .error e
        | .ok id => store { doc with id := toString id }
  else
    match ← Db.get doc.id with
    | .error e => return .error e
    | .ok none => return .error ("rule not found: " ++ doc.id)
    | .ok (some existing) => store (doc.merged existing)

def apply (parsed : AutomationRequest) : Act (Except String Reply) := do
  match parsed with
  | .RuleSet doc => rule_set doc
  | .RuleGet id =>
    match ← Db.get id with
    | .error e => return .error e
    | .ok rule => return .ok (.rule rule)
  | .RuleList =>
    match ← Db.list with
    | .error e => return .error e
    | .ok rules => return .ok (.rules (rules.insertionSort fun a b => b.id ≤ a.id))
  | .RuleDelete id =>
    match ← Db.delete id with
    | .error e => return .error e
    | .ok deleted => return .ok (.deleted deleted)

/-! ## Events -/

def MAX_RENDERED_PARAMS_BYTES : Nat := 64 * 1024

def RuleDoc.params (rule : RuleDoc) (payload : Json) : Json :=
  if Template.has_placeholders rule.action.params_json then
    Template.render payload rule.action.params_json
  else rule.action.params_json

/-- Parameters that are too long are not sent. -/
def dispatch (rule : RuleDoc) (params : Json) : Act (Except String Unit) :=
  if params.toVec.size > MAX_RENDERED_PARAMS_BYTES then
    return .error ("rendered params exceed " ++ toString (MAX_RENDERED_PARAMS_BYTES / 1024) ++ " KiB")
  else await (.call_action rule params)

/-- The result is kept in the rule, which is put back, and told to the subscribers. -/
def settle (event_type : String) (rule : RuleDoc) (dispatched : Except String Unit) : Act Unit := do
  let rule :=
    match dispatched with
    | .ok () => { rule with last_error := "" }
    | .error e => { rule with last_error := e }
  let _ ← Db.put rule
  await (.publish "triggered" (.obj
    [("event_type", .str event_type), ("name", .str rule.name),
     ("ok", .bool (rule.last_error = "")), ("rule_id", .str rule.id)]))

/-- A rule that is held back. -/
def hold (event_type : String) (rule : RuleDoc) : Act Unit := do
  let _ ← Db.put rule
  await (.publish "needs_confirmation" (.obj
    [("action", .str rule.action.target_action), ("event_type", .str event_type),
     ("name", .str rule.name), ("rule_id", .str rule.id)]))

/-- The rule is marked before the dispatch, on the copy that the task holds. -/
def fire (event_type : String) (payload : Json) (rule : RuleDoc) : Act Unit := do
  let fired ← now_ms
  let rule := { rule with last_fired_ms := fired, fire_count := rule.fire_count + 1 }
  if rule.requires_confirmation then hold event_type rule
  else
    let dispatched ← dispatch rule (rule.params payload)
    settle event_type rule dispatched

def evaluate (event_type : String) (payload : Json) (rule : RuleDoc) : Act Unit := do
  if !rule.enabled || rule.trigger.event_type ≠ event_type then return ()
  else if !rule.conditions_hold payload then return ()
  else
    let now ← now_ms
    if !rule.cooldown_ok now then return () else fire event_type payload rule

def evaluateAll (event_type : String) (payload : Json) : List RuleDoc → Act Unit
  | [] => return ()
  | rule :: rules => do
    evaluate event_type payload rule
    evaluateAll event_type payload rules

/-- Evaluates one delivered event against every enabled rule. -/
def on_event (subscribed : List String) (event_type : String) (payload : Json) : Act Unit := do
  if event_type ∉ subscribed then return ()
  else
    match ← Db.list with
    | .error _ => return ()
    | .ok rules => evaluateAll event_type payload rules

/-! ## Tasks -/

/-- What the serve loop spawns a task for: an event, or a request of the kernel. -/
inductive Spawn where
  | event (event_type : String) (payload : Json)
  | request (parsed : AutomationRequest)

def Spawn.task (subscribed : List String) : Spawn → Act Unit
  | .event event_type payload => do
    await .received
    on_event subscribed event_type payload
  | .request parsed => do
    await .received
    let result ← apply parsed
    await (.reply result)

end Automations
