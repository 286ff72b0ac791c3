import VynkorPlugins.Base.Table
import VynkorPlugins.Base.Transition

/-!
# The cap on requests in flight

The slots that the requests of each caller hold (`Inflight`), and the tasks that take and free them.
`accept`, the check and the increment of `acquire`, and `release` lock the map one by one, so any
other task may come between two of them.
-/

namespace Network

/-- The slots taken by each caller. -/
structure Inflight where
  limit : Nat
  active : Table String Nat := ∅

namespace Inflight

def check (s : Inflight) (caller : String) : Except String Unit :=
  if s.limit = 0 then .ok ()
  else
    match s.active[caller]? with
    | some in_flight =>
      if s.limit ≤ in_flight then
        .error ("caller " ++ caller ++ " already has " ++ toString in_flight
          ++ " requests in flight (limit " ++ toString s.limit ++ ")")
      else .ok ()
    | none => .ok ()

/-- The second critical section of `acquire`. -/
def increment (s : Inflight) (caller : String) : Inflight :=
  if 0 < s.limit then
    { s with active := s.active.insert caller (s.active[caller]?.getD 0 + 1) }
  else s

def release (s : Inflight) (caller : String) : Inflight :=
  if s.limit = 0 then s
  else
    match s.active[caller]? with
    | some in_flight =>
      if in_flight - 1 = 0 then { s with active := s.active.erase caller }
      else { s with active := s.active.insert caller (in_flight - 1) }
    | none => s

end Inflight

/-! ## The tasks -/

/-- What of a request the handler decides by. Plain and streaming requests take a slot alike. -/
structure ActionRequest where
  caller_plugin_id : String
  action : String

inductive TaskEnd
  | ok
  | error (e : String)
  | unwound

/-- How far the task of a request is. -/
inductive RequestTask
  | spawned (req : ActionRequest)
  | checked (caller : String)
  | holding (caller : String)
  | ended (outcome : TaskEnd)

/-- The task has the guard of a slot of a caller. -/
def RequestTask.holds (caller : String) : RequestTask → Bool
  | .holding caller' => caller' = caller
  | _ => false

def RequestTask.isEnded : RequestTask → Bool
  | .ended _ => true
  | _ => false

structure InflightServer where
  inflight : Inflight
  tasks : List RequestTask := []

inductive InflightLabel
  | receive (req : ActionRequest)
  | start (i : Nat)
  | increment (i : Nat)
  | finish (i : Nat) (outcome : TaskEnd)

namespace InflightServer

/-- `accept`. -/
def accept (s : InflightServer) (req : ActionRequest) : Except String Unit :=
  if req.action = "network_stats" ∨ req.action = "network_status" then .ok ()
  else s.inflight.check req.caller_plugin_id

/-- A request that is not accepted is answered without a task. -/
def receive (s : InflightServer) (req : ActionRequest) : InflightServer :=
  match s.accept req with
  | .ok () => { s with tasks := s.tasks ++ [.spawned req] }
  | .error e => { s with tasks := s.tasks ++ [.ended (.error e)] }

/-- `on_action` up to the end of the check in `acquire`. -/
def onAction (s : InflightServer) (req : ActionRequest) : RequestTask :=
  if req.action = "network_stats" ∨ req.action = "network_status" then .ended .ok
  else if req.action ≠ "http_request" then .ended (.error ("unknown action: " ++ req.action))
  else
    match s.inflight.check req.caller_plugin_id with
    | .ok () => .checked req.caller_plugin_id
    | .error e => .ended (.error e)

def step (s : InflightServer) : InflightLabel → Option InflightServer
  | .receive req => some (s.receive req)
  | .start i =>
    match s.tasks[i]? with
    | some (.spawned req) => some { s with tasks := s.tasks.set i (s.onAction req) }
    | _ => none
  | .increment i =>
    match s.tasks[i]? with
    | some (.checked caller) =>
      some { inflight := s.inflight.increment caller, tasks := s.tasks.set i (.holding caller) }
    | _ => none
  | .finish i outcome =>
    match s.tasks[i]? with
    | some (.holding caller) =>
      some { inflight := s.inflight.release caller, tasks := s.tasks.set i (.ended outcome) }
    | _ => none

/-- The slots that the tasks of a caller hold. -/
def held (s : InflightServer) (caller : String) : Nat :=
  s.tasks.countP (·.holds caller)

/-- A task that takes a slot still finds its caller below the limit, as its check found it. -/
def stillBelow (s : InflightServer) : InflightLabel → Bool
  | .increment i =>
    match s.tasks[i]? with
    | some (.checked caller) => s.inflight.active[caller]?.getD 0 < s.inflight.limit
    | _ => true
  | _ => true

end InflightServer

end Network
