import VynkorPlugins.Base.Transition
import VynkorPlugins.Sync.Handler

/-!
# The `sync-client` plugin

The mirror of the host's store and the events that keep it up to date (`sync-client/src/lib.rs`).
-/

namespace SyncClient

/-- The local mirror of the host's store: the version it is caught up to and its state. -/
structure Mirror where
  version : Nat
  state : Table String Json

/-- One delta event of the host. -/
structure Delta where
  op : String
  key : String
  value : Json
  version : Nat

/-- An event as the kernel delivers it. -/
structure Event where
  event_type : String
  payload_json : ByteArray

/-- `from_slice` into a `Delta`: `value` is null where it is missing, and `version` a `u64`. -/
def deltaFromSlice (serde : Serde) (payload_json : ByteArray) : Except String Delta :=
  let names := ["op", "key", "value", "version"]
  match serde.readStruct names payload_json with
  | .ok [some (.str op), some (.str key), value, some (.int version)] =>
    if 0 ≤ version ∧ version < 2 ^ 64 then
      .ok { op, key, value := value.getD .null, version := version.toNat }
    else .error (serde.fieldError names payload_json)
  | .ok _ => .error (serde.fieldError names payload_json)
  | .error e => .error e

/-- `on_event`: a delta at or below the version of the mirror is taken for one it has already. -/
def onEvent (serde : Serde) (mirror : Mirror) (event : Event) : Mirror :=
  if event.event_type ≠ "plugin.sync.sync.delta" then mirror
  else
    match deltaFromSlice serde event.payload_json with
    | .error _ => mirror
    | .ok delta =>
      if delta.version ≤ mirror.version then mirror
      else
        { version := delta.version
          state :=
            if delta.op = "set" then mirror.state.insert delta.key delta.value
            else if delta.op = "del" then mirror.state.erase delta.key
            else mirror.state }

end SyncClient

/-!
## The handler tasks of the `sync` host

Each request is handled by a task of its own. The tasks' transactions come one after the other; the
envelopes of a task are published in their order, at any later time.
-/

namespace Sync

/-- A spawned task: before its call, and with the envelopes it has still to send. -/
inductive HandlerTask where
  | received (req : ActionRequest)
  | sending (rest : List Envelope)

/-- The host and what it has published. -/
structure Host (ι : Type) where
  tasks : ι → HandlerTask
  store : Store
  published : List Envelope

/-- A task handles its request, or sends its next envelope. -/
inductive HostLabel (ι : Type) where
  | handle (i : ι) (env : Surroundings)
  | send (i : ι)

variable {ι : Type} [DecidableEq ι]

def hostStep (serde : Serde) (h : SyncHandler) (w : Host ι) : HostLabel ι → Option (Host ι)
  | .handle i env =>
    match w.tasks i with
    | .received req =>
      let call := (handle serde h env req.caller_plugin_id req.action req.params_json).exec w.store
      some { w with
        tasks := Function.update w.tasks i (.sending (onAction req call.1))
        store := call.2 }
    | .sending _ => none
  | .send i =>
    match w.tasks i with
    | .sending (e :: rest) =>
      some { w with
        tasks := Function.update w.tasks i (.sending rest)
        published := w.published ++ [e] }
    | _ => none

/-- A step of the host. -/
def HostStep (serde : Serde) (h : SyncHandler) (w : Host ι) (l : HostLabel ι) (w' : Host ι) : Prop :=
  hostStep serde h w l = some w'

/-- The kernel delivers an event under the name of its sender. -/
def deliver : Envelope → Option SyncClient.Event
  | .eventPublish event_type payload_json =>
    some { event_type := "plugin.sync." ++ event_type, payload_json }
  | .actionResponse .. => none

/-- A mirror that has been given all the published events in their order. -/
def mirrorAfter (serde : Serde) (mirror : SyncClient.Mirror) (published : List Envelope) :
    SyncClient.Mirror :=
  (published.filterMap deliver).foldl (SyncClient.onEvent serde) mirror

/-- The request a task has still to handle. -/
def HandlerTask.request : HandlerTask → Option ActionRequest
  | .received req => some req
  | .sending _ => none

/-- The envelopes a task has still to send. -/
def HandlerTask.waiting : HandlerTask → List Envelope
  | .received _ => []
  | .sending rest => rest

end Sync
