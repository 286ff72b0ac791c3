import Mathlib.Data.List.Sort
import VynkorPlugins.Base.Async
import VynkorPlugins.Base.Table
import VynkorPlugins.Uptime.Model

/-!
# Requests and scans

The tasks of the `uptime` plugin (`lib.rs`, `main.rs`): a request of the kernel, and the scan that
each tick of the timer spawns. They await the clock, the database, the checks and the bus.
-/

namespace Uptime

/-- The answers, before they are encoded. -/
inductive Reply where
  | added (target : Target)
  | removed (removed : Bool)
  | targets (targets : List Target)
  | checked (url : String) (res : CheckResult)
  | checks (page : List Check) (total : Nat)
  | status

/-! ## What a task awaits -/

/-- The prefixes of the keys. -/
inductive Prefix where
  | target
  | check
  | state
deriving DecidableEq

/-- The counters of the ids. -/
inductive Counter where
  | next_target_id
  | next_check_id
deriving DecidableEq

/-- A check or an event of a scan is told along with its target. `ended` is the end of a scan's
    task. -/
inductive Eff where
  | now
  | db_keys (space : Prefix)
  | get_targets (keys : List String)
  | get_states (keys : List String)
  | get_checks (keys : List String)
  | db_incr (counter : Counter)
  | put_target (target : Target)
  | delete_target (id : String)
  | put_state (id : String) (st : TargetState)
  | delete_state (id : String)
  | put_check (check : Check)
  | delete_check (id : String)
  | http_request (target : Option String) (url : String) (timeout_ms : UInt64)
  | alert (target : String) (alert : Alert) (payload : Json)
  | publish (event_type : String) (payload : Json)
  | reply (result : Except String Reply)
  | ended

/-- The calls to other plugins come back with an error where they fail. A check takes its time. -/
@[reducible] def Eff.Answer : Eff → Type
  | .now => Int64
  | .db_keys _ => Except String (List String)
  | .get_targets _ => Except String (List Target)
  | .get_states _ => Except String (Table String TargetState)
  | .get_checks _ => Except String (List Check)
  | .db_incr _ => Except String Nat
  | .put_target _ => Except String Unit
  | .delete_target _ => Except String Bool
  | .put_state .. => Except String Unit
  | .delete_state _ => Except String Unit
  | .put_check _ => Except String Unit
  | .delete_check _ => Except String Bool
  | .http_request .. => Except String Json × UInt64
  | .alert .. => Unit
  | .publish .. => Unit
  | .reply _ => Unit
  | .ended => Unit

abbrev Act (α : Type) := Async Eff Eff.Answer α

def await (e : Eff) : Act e.Answer := Async.perform e

namespace Db

def next_id (counter : Counter) : Act (Except String Nat) := await (.db_incr counter)

def put_target (t : Target) : Act (Except String Unit) := await (.put_target t)

/-- The documents whose keys are listed: two calls, between which other tasks may move. -/
def list_targets : Act (Except String (List Target)) := do
  match ← await (.db_keys .target) with
  | .error e => return .error e
  | .ok keys => if keys = [] then return .ok [] else await (.get_targets keys)

def delete_target (id : String) : Act (Except String Bool) := await (.delete_target id)

def list_states : Act (Except String (Table String TargetState)) := do
  match ← await (.db_keys .state) with
  | .error e => return .error e
  | .ok keys => if keys = [] then return .ok ∅ else await (.get_states keys)

def put_state (id : String) (st : TargetState) : Act (Except String Unit) := await (.put_state id st)

def delete_state (id : String) : Act (Except String Unit) := await (.delete_state id)

def put_check (c : Check) : Act (Except String Unit) := await (.put_check c)

def list_checks : Act (Except String (List Check)) := do
  match ← await (.db_keys .check) with
  | .error e => return .error e
  | .ok keys => if keys = [] then return .ok [] else await (.get_checks keys)

def delete_checks : List Check → Nat → Act (Except String Nat)
  | [], n => return .ok n
  | c :: cs, n => do
    match ← await (.delete_check c.id) with
    | .error e => return .error e
    | .ok deleted => delete_checks cs (if deleted then n + 1 else n)

/-- The oldest checks that are too many are deleted. -/
def trim_checks (max : Nat) : Act (Except String Nat) := do
  if max = 0 then return .ok 0
  else
    match ← list_checks with
    | .error e => return .error e
    | .ok all =>
      if all.length ≤ max then return .ok 0
      else
        let sorted := all.insertionSort fun a b => a.timestamp_ms ≤ b.timestamp_ms
        delete_checks (sorted.take (all.length - max)) 0

end Db

def now_ms : Act Int64 := await .now

structure Config where
  max_checks : Nat
  check_timeout_ms : UInt64
  fail_threshold : Nat

/-! ## Requests -/

/-- The check of a target, for a scan, or of a URL on demand. -/
def do_check (target : Option String) (url : String) (timeout_ms : UInt64) : Act CheckResult := do
  let r ← await (.http_request target url timeout_ms)
  return .of r.1 r.2

def checkOf (id : Nat) (url : String) (now : Int64) (res : CheckResult) : Check where
  id := toString id
  url
  timestamp_ms := now
  ok := res.ok
  status := res.status
  latency_ms := res.latency_ms
  error := res.error

/-- The answer, and the event that follows it. -/
abbrev Handled := Except String (Reply × Option (String × Json))

def uptime_add (url : String) : Act Handled := do
  match ← Db.list_targets with
  | .error e => return .error e
  | .ok existing =>
    match existing.find? fun t => t.url = url with
    | some t => return .ok (.added t, none)
    | none =>
      match ← Db.next_id .next_target_id with
      | .error e => return .error e
      | .ok id =>
        let now ← now_ms
        let target : Target := { id := toString id, url, created_at_ms := now }
        match ← Db.put_target target with
        | .error e => return .error e
        | .ok () =>
          return .ok (.added target,
            some ("target_added", .obj [("id", .str target.id), ("url", .str url)]))

def uptime_remove (id : String) : Act Handled := do
  match ← Db.delete_target id with
  | .error e => return .error e
  | .ok removed =>
    let _ ← Db.delete_state id
    return .ok (.removed removed,
      if removed then some ("target_removed", .obj [("id", .str id)]) else none)

def uptime_check (config : Config) (url : String) (timeout_ms : UInt64) : Act Handled := do
  let res ← do_check none url timeout_ms
  match ← Db.next_id .next_check_id with
  | .error e => return .error e
  | .ok id =>
    let now ← now_ms
    let _ ← Db.put_check (checkOf id url now res)
    let _ ← Db.trim_checks config.max_checks
    return .ok (.checked url res,
      if res.ok then none
      else some ("check_failed", .obj
        [("error", optStr res.error), ("status", .int res.status.toInt), ("url", .str url)]))

def uptime_history (url : Option String) (limit offset : Nat) : Act Handled := do
  match ← Db.list_checks with
  | .error e => return .error e
  | .ok checks =>
    let kept : List Check := match url with
      | some u => checks.filter fun c => c.url = u
      | none => checks
    let sorted := kept.insertionSort fun a b => b.timestamp_ms ≤ a.timestamp_ms
    return .ok (.checks ((sorted.drop offset).take limit) sorted.length, none)

def handle_action (config : Config) (req : UptimeRequest) : Act Handled :=
  match req with
  | .Add url => uptime_add url
  | .Remove id => uptime_remove id
  | .List => do
    match ← Db.list_targets with
    | .error e => return .error e
    | .ok targets =>
      return .ok (.targets (targets.insertionSort fun a b => a.created_at_ms ≤ b.created_at_ms), none)
  | .Check url timeout_ms => uptime_check config url timeout_ms
  | .History url limit offset => uptime_history url limit offset
  | .Status => return .ok (.status, none)

/-! ## Scans -/

/-- An alert of a target. -/
structure ScanEvent where
  target : String
  alert : Alert
  payload : Json

structure ScanResult where
  checked : Nat
  events : List ScanEvent

/-- A state that has not changed is not written. -/
def persist (id : String) (before st : TargetState) : Act Bool := do
  if st = before then return true
  else
    match ← Db.put_state id st with
    | .ok () => return true
    | .error _ => return false

def scan_targets (config : Config) (states : Table String TargetState) :
    List Target → ScanResult → Act (Except String ScanResult)
  | [], scan => return .ok scan
  | t :: targets, scan => do
    let res ← do_check (some t.id) t.url config.check_timeout_ms
    match ← Db.next_id .next_check_id with
    | .error e => return .error e
    | .ok id =>
      let now ← now_ms
      let before := (states[t.id]?).getD .default
      let (st, event) := advance before t.url res now config.fail_threshold
      let persisted ← persist t.id before st
      let events := match persisted, event with
        | true, some (alert, payload) => [{ target := t.id, alert, payload : ScanEvent }]
        | _, _ => []
      let _ ← Db.put_check (checkOf id t.url now res)
      scan_targets config (states.erase t.id) targets
        { checked := scan.checked + 1, events := scan.events ++ events }

def scan_all (config : Config) : Act (Except String ScanResult) := do
  match ← Db.list_targets with
  | .error e => return .error e
  | .ok targets =>
    match ← Db.list_states with
    | .error e => return .error e
    | .ok states =>
      match ← scan_targets config states targets { checked := 0, events := [] } with
      | .error e => return .error e
      | .ok scan =>
        let _ ← Db.trim_checks config.max_checks
        return .ok scan

def publish_all : List ScanEvent → Act Unit
  | [] => return ()
  | e :: es => do
    await (.alert e.target e.alert e.payload)
    publish_all es

/-! ## Tasks -/

/-- What the serve loop spawns a task for. -/
inductive Spawn where
  | tick
  | request (req : UptimeRequest)

def Spawn.task (config : Config) : Spawn → Act Unit
  | .tick => do
    match ← scan_all config with
    | .error _ => await .ended
    | .ok scan =>
      publish_all scan.events
      await .ended
  | .request req => do
    match ← handle_action config req with
    | .error e => await (.reply (.error e))
    | .ok (reply, event) =>
      await (.reply (.ok reply))
      match event with
      | some (event_type, payload) => await (.publish event_type payload)
      | none => return ()

end Uptime
