import VynkorPlugins.Base.Serde
import VynkorPlugins.Base.Table
import VynkorPlugins.Base.Transition

/-!
# Calls through the serve loop

The tasks of the `automations` plugin call other plugins through its serve loop, which sends the
requests and hands each answer to the call that waits for it (`Rpc::call` and `serve`).
-/

namespace Automations

/-- A call by its number: the `reply` that the source sends along is the call's own. -/
structure RpcCall where
  call : Nat
  action : String
  params_json : ByteArray
  timeout_ms : UInt32

/-- A request in the kernel. `call` is the call that it was sent for. -/
structure ActionRequest where
  call : Nat
  action_id : String
  action : String
  params_json : ByteArray
  timeout_ms : UInt32

/-- What the kernel answers. -/
structure Answer where
  ok : Bool
  data_json : ByteArray
  error : String

/-- An answer on its way to the plugin, under the `action_id` of its request. -/
structure ActionResponse where
  call : Nat
  action_id : String
  answer : Answer

/-- How a call has ended: with an answer, which is the one to the request of `request`; because its
    reply was dropped; or by its timeout. -/
inductive Outcome where
  | answered (answer : Answer) (request : Nat)
  | aborted
  | timedOut

/-- What `Rpc::call` returns. -/
def RpcCall.result (serde : Serde) (c : RpcCall) : Outcome → Except String Json
  | .answered answer _ =>
    if answer.ok then (serde.fromSlice answer.data_json).mapError ("malformed payload: " ++ ·)
    else .error answer.error
  | .aborted => .error (c.action ++ " aborted: serve loop is shutting down")
  | .timedOut =>
    let effective := if c.timeout_ms = 0 then 30000 else c.timeout_ms
    .error (c.action ++ " timed out after " ++ toString effective ++ " ms")

/-- The plugin and the kernel. -/
structure Serve where
  /-- The calls made so far. -/
  calls : Nat
  /-- The channel to the loop, the first call first. -/
  queue : List RpcCall
  /-- The replies that the loop holds. -/
  pending : Table String Nat
  /-- The requests in the kernel that are not answered yet. -/
  kernel : List ActionRequest
  /-- The answers that the loop has not read yet, the first one first. -/
  incoming : List ActionResponse
  /-- The calls that have returned. -/
  outcome : Table Nat Outcome
  /-- Whether the loop still runs. -/
  running : Bool

def Serve.empty : Serve where
  calls := 0
  queue := []
  pending := ∅
  kernel := []
  incoming := []
  outcome := ∅
  running := true

/-- A call returns, unless it has returned before. -/
def Serve.finish (s : Serve) (call : Nat) (o : Outcome) : Serve :=
  if s.outcome.contains call then s else { s with outcome := s.outcome.insert call o }

def actionId (unix_millis : Nat) : String := "automations-" ++ toString unix_millis

/-- The steps of the plugin and the kernel. -/
inductive ServeLabel where
  /-- A task makes a call. -/
  | call (action : String) (params_json : ByteArray) (timeout_ms : UInt32)
  /-- The loop takes a call from the channel, at a reading of the clock. -/
  | send (unix_millis : Nat)
  /-- The kernel answers one of its requests. -/
  | answer (i : Nat) (answer : Answer)
  /-- The loop reads an answer. -/
  | receive
  /-- A call times out. -/
  | timeout (call : Nat)
  /-- The loop ends. -/
  | shutdown

/-- A call, which fails at once if the loop has ended. -/
def Serve.call (s : Serve) (action : String) (params_json : ByteArray) (timeout_ms : UInt32) : Serve :=
  let s' := { s with calls := s.calls + 1 }
  if s.running then
    { s' with queue := s.queue ++ [{ call := s.calls, action, params_json, timeout_ms }] }
  else s'.finish s.calls .aborted

/-- `Some(call) = rpc_rx.recv()`. A reply that is replaced in the map is dropped. -/
def Serve.send (s : Serve) (unix_millis : Nat) : Option Serve :=
  match s.running, s.queue with
  | true, c :: queue =>
    let action_id := actionId unix_millis
    let s' :=
      match s.pending[action_id]? with
      | some dropped => s.finish dropped .aborted
      | none => s
    some { s' with
      queue
      pending := s.pending.insert action_id c.call
      kernel := s.kernel ++ [{ call := c.call, action_id, action := c.action,
                               params_json := c.params_json, timeout_ms := c.timeout_ms }] }
  | _, _ => none

def Serve.answer (s : Serve) (i : Nat) (answer : Answer) : Option Serve :=
  (s.kernel[i]?).map fun req => { s with
    kernel := s.kernel.eraseIdx i
    incoming := s.incoming ++ [{ call := req.call, action_id := req.action_id, answer }] }

/-- `Payload::ActionResponse`. -/
def Serve.receive (s : Serve) : Option Serve :=
  match s.running, s.incoming with
  | true, resp :: incoming =>
    let s' := { s with incoming, pending := s.pending.erase resp.action_id }
    match s.pending[resp.action_id]? with
    | some waiter => some (s'.finish waiter (.answered resp.answer resp.call))
    | none => some s'
  | _, _ => none

def Serve.timeout (s : Serve) (call : Nat) : Option Serve :=
  if call < s.calls then some (s.finish call .timedOut) else none

/-- The loop ends: the replies that it holds, and the ones in the channel, are dropped. -/
def Serve.shutdown (s : Serve) : Serve :=
  let dropped := s.pending.toList.map Prod.snd ++ s.queue.map RpcCall.call
  dropped.foldl (fun s call => s.finish call .aborted)
    { s with running := false, pending := ∅, queue := [] }

def Serve.step (s : Serve) : ServeLabel → Option Serve
  | .call action params_json timeout_ms => some (s.call action params_json timeout_ms)
  | .send unix_millis => s.send unix_millis
  | .answer i answer => s.answer i answer
  | .receive => s.receive
  | .timeout call => s.timeout call
  | .shutdown => some s.shutdown

/-- Each call that has returned an answer has the one to its own request, and while the loop runs no
    call has been aborted. -/
structure Serve.Correlated (s : Serve) : Prop where
  own : ∀ (call request : Nat) (answer : Answer),
    s.outcome[call]? = some (.answered answer request) → request = call
  kept : s.running = true → ∀ call : Nat, s.outcome[call]? ≠ some .aborted

/-- The loop takes a call at a reading under which no request is waiting for its answer. -/
def FreshId (s : Serve) : ServeLabel → Prop
  | .send unix_millis => s.pending[actionId unix_millis]? = none
  | _ => True

instance (s : Serve) (l : ServeLabel) : Decidable (FreshId s l) := by
  cases l <;> unfold FreshId <;> infer_instance

end Automations
