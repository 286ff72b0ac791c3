import VynkorPlugins.Base.Rust
import VynkorPlugins.Base.Serde
import VynkorPlugins.Base.Table
import VynkorPlugins.Base.Transaction
import VynkorPlugins.Base.VersionedLog

/-!
# The `sync` plugin

The host's one global store (`db.rs`), the requests (`request.rs`) and the handler
(`handler.rs`, `lib.rs`).
-/

namespace Sync

open Rust

/-! ## The store -/

/-- A row of the `state` table. -/
structure Row where
  value : String
  updated_at : Int
deriving DecidableEq, Repr

/-- The `state` table and the version counter of the `meta` table, which is seeded with `0` and only
    ever bumped. -/
@[ext]
structure Store where
  state : Table String Row
  version : Nat
  version_le : version ≤ i64Max

/-- A single state mutation to be published as a `sync.delta` event. -/
structure Delta where
  op : String
  key : String
  value : Option Json
  version : Nat
  updated_at : Int

/-- `json!` of an optional value. -/
def jsonOption : Option Json → Json
  | some v => v
  | none => .null

/-- `Delta::payload_json`, its members in the order of their names. -/
def Delta.payloadJson (d : Delta) : ByteArray :=
  (Json.obj [("key", .str d.key), ("op", .str d.op), ("updated_at", .int d.updated_at),
    ("value", jsonOption d.value), ("version", .int d.version)]).toVec

/-! ## Requests -/

inductive SyncRequest where
  | get (key : String)
  | set (key : String) (value : Json)
  | del (key : String)
  | snapshot

def requireNonemptyKey (key : String) : Except String String :=
  if key = "" then .error "params.key must be a non-empty string" else .ok key

/-- `from_slice` into `KeyParams`. -/
def keyParams (serde : Serde) (params_json : ByteArray) : Except String String :=
  match serde.readStruct ["key"] params_json with
  | .ok [some (.str key)] => .ok key
  | .ok _ => .error (serde.fieldError ["key"] params_json)
  | .error e => .error e

/-- `from_slice` into `SetParams`. -/
def setParams (serde : Serde) (params_json : ByteArray) : Except String (String × Json) :=
  match serde.readStruct ["key", "value"] params_json with
  | .ok [some (.str key), some value] => .ok (key, value)
  | .ok _ => .error (serde.fieldError ["key", "value"] params_json)
  | .error e => .error e

def parseRequest (serde : Serde) (action : String) (params_json : ByteArray) :
    Except String SyncRequest :=
  if action = "sync_get_snapshot" then .ok .snapshot
  else if action = "sync_get" then do
    let key ← (keyParams serde params_json).mapError
      ("invalid params for sync_get, expected \x7bkey\x7d: " ++ ·)
    return .get (← requireNonemptyKey key)
  else if action = "sync_set" then do
    let (key, value) ← (setParams serde params_json).mapError
      ("invalid params for sync_set, expected \x7bkey, value\x7d: " ++ ·)
    return .set (← requireNonemptyKey key) value
  else if action = "sync_del" then do
    let key ← (keyParams serde params_json).mapError
      ("invalid params for sync_del, expected \x7bkey\x7d: " ++ ·)
    return .del (← requireNonemptyKey key)
  else .error ("unknown action: " ++ action)

/-! ## The handler -/

/-- The configuration of a `SyncHandler`. -/
structure SyncHandler where
  max_value_bytes : Nat
  max_response_bytes : Nat
  heartbeat_ttl_secs : Nat

/-- What one call meets outside of the store: its readings of the clock and, if the database
    refuses one of its statements, the error. -/
structure Surroundings where
  now_ms : Int
  prune_now_ms : Int
  fault : Option String

/-- `read_version`: the counter is a decimal number, so it always parses. -/
def readVersion : Tx Store Nat :=
  return (← get).version

/-- `bump_version`. SQLite turns the successor of the largest integer into a real, whose text is
    then no version. -/
def bumpVersion : Tx Store Nat := do
  let s ← get
  if h : s.version < i64Max then
    set ({ s with version := s.version + 1, version_le := h } : Store)
    readVersion
  else
    throw ("corrupt version meta value \"9.22337203685478e+18\": " ++
      "invalid digit found in string")

/-- `delete from state where key = ?1`, and whether there was a row. -/
def deleteRow (key : String) : Tx Store Bool := do
  let s ← get
  set { s with state := s.state.erase key }
  return s.state.contains key

/-- `insert into state … on conflict(key) do update`. -/
def upsertRow (key : String) (row : Row) : Tx Store Unit :=
  modify fun s => { s with state := s.state.insert key row }

/-- `key like 'heartbeat.%'`: `LIKE` does not tell the case of ASCII letters. -/
def isHeartbeat (key : String) : Bool :=
  "heartbeat.".toList.isPrefixOf (key.toList.map Char.toLower)

/-- The keys of the stale heartbeat rows, in their order. -/
def staleKeys (cutoff : Int) (state : Table String Row) : List String :=
  (state.selectWhere fun key row => isHeartbeat key && row.updated_at < cutoff).map Prod.fst

/-- The body of the loop of `prune_heartbeats`. -/
def pruneRow (now_ms : Int) (key : String) : Tx Store Delta := do
  let _ ← deleteRow key
  let version ← bumpVersion
  return { op := "del", key, value := none, version, updated_at := now_ms }

/-- The keys that `prune_heartbeats` finds. -/
def prunedKeys (heartbeat_ttl_secs : Nat) (now_ms : Int) (state : Table String Row) : List String :=
  if heartbeat_ttl_secs = 0 then []
  else staleKeys (wrapI64 (now_ms - wrapI64 (wrapI64 heartbeat_ttl_secs * 1000))) state

def pruneHeartbeats (heartbeat_ttl_secs : Nat) (now_ms : Int) : Tx Store (List Delta) := do
  (prunedKeys heartbeat_ttl_secs now_ms (← get).state).mapM (pruneRow now_ms)

def handleGet (serde : Serde) (env : Surroundings) (key : String) : Db Store Json := do
  let row ← Db.transaction env.fault (return (← get).state[key]?)
  match row with
  | some row =>
    let value ← Db.ofExcept <| (serde.fromStr row.value).mapError
      ("corrupt stored value for key " ++ debug key ++ ": " ++ ·)
    return .obj [("found", .bool true), ("value", value)]
  | none => return .obj [("found", .bool false), ("value", .null)]

def handleSet (h : SyncHandler) (env : Surroundings) (key : String) (value : Json) :
    Db Store (Json × List Delta) := do
  let raw := value.print
  if h.max_value_bytes < raw.utf8ByteSize then
    throw ("value exceeds max_value_bytes (" ++ toString raw.utf8ByteSize ++ " > " ++
      toString h.max_value_bytes ++ ")")
  let (deltas, version) ← Db.transaction env.fault do
    let deltas ← pruneHeartbeats h.heartbeat_ttl_secs env.prune_now_ms
    upsertRow key { value := raw, updated_at := env.now_ms }
    return (deltas, ← bumpVersion)
  return (.obj [("ok", .bool true), ("version", .int version)],
    deltas ++ [{ op := "set", key, value := some value, version, updated_at := env.now_ms }])

def handleDel (env : Surroundings) (key : String) : Db Store (Json × List Delta) := do
  let (deleted, version, deltas) ← Db.transaction env.fault do
    let deleted ← deleteRow key
    -- a del that removed nothing is not a mutation
    if deleted then
      let version ← bumpVersion
      return (deleted, version,
        [({ op := "del", key, value := none, version, updated_at := env.now_ms } : Delta)])
    else
      return (deleted, ← readVersion, [])
  return (.obj [("deleted", .bool deleted), ("version", .int version)], deltas)

/-- The value of a row of a snapshot; a corrupt one is an error. -/
def parseRow (serde : Serde) (row : String × Row) : Except String (String × Json) := do
  let value ← (serde.fromStr row.2.value).mapError
    ("corrupt stored value for key " ++ debug row.1 ++ ": " ++ ·)
  return (row.1, value)

def parseRows (serde : Serde) (rows : List (String × Row)) : Except String (List (String × Json)) :=
  rows.mapM (parseRow serde)

/-- The result of a snapshot, its members in the order of their names. -/
def snapshotJson (version : Nat) (state : List (String × Json)) : Json :=
  .obj [("state", .obj state), ("version", .int version)]

def handleSnapshot (serde : Serde) (h : SyncHandler) (env : Surroundings) :
    Db Store (Json × List Delta) := do
  let (deltas, version, rows) ← Db.transaction env.fault do
    let deltas ← pruneHeartbeats h.heartbeat_ttl_secs env.prune_now_ms
    let version ← readVersion
    return (deltas, version, (← get).state.toList)
  let state ← Db.ofExcept (parseRows serde rows)
  let result := snapshotJson version state
  -- rejected, never truncated
  if h.max_response_bytes < result.toVec.size then
    throw ("snapshot exceeds max_response_bytes (" ++ toString result.toVec.size ++ " > " ++
      toString h.max_response_bytes ++ ")")
  return (result, deltas)

/-- `SyncHandler::handle`: the response and the deltas to publish after it. -/
def handle (serde : Serde) (h : SyncHandler) (env : Surroundings)
    (caller_plugin_id action : String) (params_json : ByteArray) :
    Db Store (ByteArray × List Delta) := do
  if caller_plugin_id = "" then
    throw "missing caller_plugin_id (rejected before touching any database)"
  let (result, deltas) ←
    match ← Db.ofExcept (parseRequest serde action params_json) with
    | .snapshot => handleSnapshot serde h env
    | .get key => do pure (← handleGet serde env key, [])
    | .set key value => handleSet h env key value
    | .del key => handleDel env key
  return (result.toVec, deltas)

/-! ## The plugin's envelopes -/

structure ActionRequest where
  action_id : String
  caller_plugin_id : String
  action : String
  params_json : ByteArray

/-- The envelopes a handler task sends. -/
inductive Envelope where
  | actionResponse (action_id : String) (result : Except String ByteArray)
  | eventPublish (event_type : String) (payload_json : ByteArray)

/-- The event type published on every mutation. -/
def deltaEventType : String := "sync.delta"

def deltaEnvelope (delta : Delta) : Envelope :=
  .eventPublish deltaEventType delta.payloadJson

/-- `on_action`: the response first, then the deltas in the order of their versions. -/
def onAction (req : ActionRequest) : Except String (ByteArray × List Delta) → List Envelope
  | .ok (response_json, deltas) =>
    .actionResponse req.action_id (.ok response_json) :: deltas.map deltaEnvelope
  | .error error => [.actionResponse req.action_id (.error error)]

end Sync
