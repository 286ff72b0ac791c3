import VynkorPlugins.Base.Rust
import VynkorPlugins.Base.Serde
import VynkorPlugins.Base.SqlTokens
import VynkorPlugins.Base.Table
import VynkorPlugins.Base.Transaction
import VynkorPlugins.Base.Transition

/-!
# Key-value calls

The `kv` table of one caller and the actions of the `database` plugin on single keys (`handler.rs`,
`db.rs`). A call sweeps the expired rows first and then runs one statement or one transaction.
-/

namespace Database

open Rust (debug contains replaceChar)

structure Row where
  value : String
  updated_at : Int64
  expires_at : Option Int64
deriving DecidableEq

abbrev Kv := Table String Row

inductive DbRequest where
  | Get (key : String)
  | Set (key : String) (value : Json) (ttl_ms : Option Int64)
  | Delete (key : String)
  | Incr (key : String) (delta : Int64)
  | Append (key : String) (value : Json)
  | Patch (key path : String) (value : Json)

structure ChangeEvent where
  action : String
  key : String

structure Config where
  max_value_bytes : Nat

/-- What the plugin takes from SQLite. -/
structure Sqlite where
  /-- `json_set(value, path, json(value_json))` of a stored text. -/
  json_set : (value path value_json : String) → Except String String

/-! ## Rows -/

/-- The time of the row has not passed. -/
def Row.alive (now_ms : Int64) (row : Row) : Bool :=
  row.expires_at.all fun expires_at => now_ms < expires_at

/-- `delete from kv where expires_at is not null and expires_at <= ?1` -/
def Kv.sweep (kv : Kv) (now_ms : Int64) : Kv :=
  Table.deleteWhere kv fun _ row => !row.alive now_ms

/-- `select value from kv where key = ?1 and (expires_at is null or expires_at > ?2)` -/
def Kv.live (kv : Kv) (key : String) (now_ms : Int64) : Option Row :=
  kv[key]?.filter (Row.alive now_ms)

/-- The upsert that names only the value and the stamp: a row that exists keeps its expiry. -/
def Kv.upsert (kv : Kv) (key value : String) (now_ms : Int64) : Kv :=
  kv.insert key { value, updated_at := now_ms, expires_at := kv[key]?.bind Row.expires_at }

/-! ## Errors -/

def value_exceeds (len max : Nat) : String :=
  "value exceeds max_value_bytes (" ++ toString len ++ " > " ++ toString max ++ ")"

def corrupt (key e : String) : String :=
  "corrupt stored value for key " ++ debug key ++ ": " ++ e

/-- The error of a statement that sets a path. -/
def patch_error (path msg : String) : String :=
  if contains (String.ofList (msg.toList.map Char.toLower)) "json path" then
    "invalid JSON path " ++ debug path ++ ": " ++ msg
  else msg

/-! ## Actions -/

section

variable (sqlite : Sqlite) (serde : Serde) (config : Config) (now_ms : Int64) (fault : Option String)

/-- The value of a row that is read. -/
def decode (key : String) (row : Row) : Except String Json :=
  (serde.fromStr row.value).mapError (corrupt key)

def handle_get (key : String) : Db Kv Json :=
  Db.transaction fault do
    match (← get).live key now_ms with
    | none => return .obj [("found", .bool false), ("value", .null)]
    | some row =>
      match decode serde key row with
      | .error e => throw e
      | .ok value => return .obj [("found", .bool true), ("value", value)]

def handle_set (key : String) (value : Json) (ttl_ms : Option Int64) : Db Kv Json := do
  let raw := value.print
  if config.max_value_bytes < raw.utf8ByteSize then
    throw (value_exceeds raw.utf8ByteSize config.max_value_bytes)
  else
    Db.transaction fault do
      modify fun kv => kv.insert key
        { value := raw, updated_at := now_ms, expires_at := ttl_ms.map fun ttl => now_ms + ttl }
      return .obj [("ok", .bool true)]

def handle_delete (key : String) : Db Kv (Bool × Json) :=
  Db.transaction fault do
    let deleted := (← get).contains key
    modify fun kv => kv.erase key
    return (deleted, .obj [("deleted", .bool deleted)])

/-- The counter after an increment: the sum of two `i64` wraps around. -/
def new_counter (key : String) (delta : Int64) : Option Row → Except String Int64
  | none => .ok delta
  | some row =>
    match decode serde key row with
    | .error e => .error e
    | .ok value =>
      match value.asI64 with
      | some old => .ok (Int64.ofInt old + delta)
      | none => .error ("key '" ++ key ++ "' is not a counter: stored value is not an integer")

def handle_incr (key : String) (delta : Int64) : Db Kv Json :=
  Db.transaction fault do
    match new_counter serde key delta ((← get).live key now_ms) with
    | .error e => throw e
    | .ok new_value =>
      modify fun kv => Kv.upsert kv key (toString new_value) now_ms
      return .obj [("ok", .bool true), ("value", .int new_value.toInt)]

/-- What the keys that begin with a text are compared with: its own wildcards are escaped. -/
def keys_pattern (pre : List Char) : List Char :=
  replaceChar '_' ['\\', '_'] (replaceChar '%' ['\\', '%'] (replaceChar '\\' ['\\', '\\'] pre)) ++
    ['%']

/-- `select key from kv where key like ?1 escape '\' order by key` -/
def handle_keys (pre : String) : Db Kv Json :=
  Db.transaction fault do
    let rows := Table.selectWhere (← get) fun key _ =>
      Like.like '\\' key.toList (keys_pattern pre.toList)
    return .obj [("keys", .arr (rows.map fun r => .str r.1))]

/-- The items of an array after an append. -/
def new_items (key : String) (value : Json) : Option Row → Except String (List Json)
  | none => .ok [value]
  | some row =>
    match decode serde key row with
    | .error e => .error e
    | .ok (.arr items) => .ok (items ++ [value])
    | .ok _ => .error ("key '" ++ key ++ "' is not an array: cannot append")

def handle_append (key : String) (value : Json) : Db Kv Json :=
  Db.transaction fault do
    match new_items serde key value ((← get).live key now_ms) with
    | .error e => throw e
    | .ok items =>
      let raw := (Json.arr items).print
      if config.max_value_bytes < raw.utf8ByteSize then
        throw (value_exceeds raw.utf8ByteSize config.max_value_bytes)
      else
        modify fun kv => Kv.upsert kv key raw now_ms
        return .obj [("length", .int items.length), ("ok", .bool true)]

def handle_patch (key path : String) (value : Json) : Db Kv Json :=
  Db.transaction fault do
    match (← get).live key now_ms with
    | none => throw ("key not found: '" ++ key ++ "'")
    | some row =>
      match sqlite.json_set row.value path value.print with
      | .error msg => throw (patch_error path msg)
      | .ok new_raw =>
        let row := { row with value := new_raw, updated_at := now_ms }
        modify fun kv => kv.insert key row
        -- The updated text is not measured before the commit.
        match decode serde key row with
        | .error e => throw e
        | .ok new_value => return .obj [("ok", .bool true), ("value", new_value)]

/-- An action after the sweep, with the change that is published of it. -/
def dispatch : DbRequest → Db Kv (Json × Option ChangeEvent)
  | .Get key => do return (← handle_get serde now_ms fault key, none)
  | .Set key value ttl_ms => do
    return (← handle_set config now_ms fault key value ttl_ms, some { action := "db_set", key })
  | .Delete key => do
    let (deleted, value) ← handle_delete fault key
    return (value, if deleted then some { action := "db_delete", key } else none)
  | .Incr key delta => do
    return (← handle_incr serde now_ms fault key delta, some { action := "db_incr", key })
  | .Append key value => do
    return (← handle_append serde config now_ms fault key value, some { action := "db_append", key })
  | .Patch key path value => do
    return (← handle_patch sqlite serde now_ms fault key path value,
      some { action := "db_patch", key })

end

def sweep_expired (now_ms : Int64) (fault : Option String) : Db Kv Unit :=
  Db.transaction fault (modify fun kv => Kv.sweep kv now_ms)

/-- The action `db_keys`, which changes nothing after the sweep. -/
def db_keys (sweep_fault fault : Option String) (swept_at : Int64) (pre : String) : Db Kv Json := do
  sweep_expired swept_at sweep_fault
  handle_keys fault pre

/-! ## Calls -/

/-- A call, with the times that it reads and the errors of the statements that the database refuses. -/
structure Call where
  req : DbRequest
  swept_at : Int64
  now_ms : Int64
  sweep_fault : Option String
  fault : Option String

abbrev Reply := Except String (Json × Option ChangeEvent)

def handle_with_events (sqlite : Sqlite) (serde : Serde) (config : Config) (call : Call) :
    Db Kv (Json × Option ChangeEvent) := do
  sweep_expired call.swept_at call.sweep_fault
  dispatch sqlite serde config call.now_ms call.fault call.req

/-- A call is answered, one after the other. -/
def CallStep (sqlite : Sqlite) (serde : Serde) (config : Config) (kv : Kv) (l : Call × Reply) (kv' : Kv) :
    Prop :=
  (handle_with_events sqlite serde config l.1).exec kv = (l.2, kv')

/-! ## The cap -/

/-- Each stored text is within the cap. -/
def Kv.Fits (max : Nat) (kv : Kv) : Prop :=
  ∀ (key : String) (row : Row), kv[key]? = some row → row.value.utf8ByteSize ≤ max

/-- The stored texts are within the cap after a call, and one that fails has at most swept. -/
structure Capped (max : Nat) (kv : Kv) (l : Call × Reply) (kv' : Kv) : Prop where
  fits : kv'.Fits max
  failed : ∀ e, l.2 = .error e → kv' = kv ∨ kv' = kv.sweep l.1.swept_at

/-- The text that a patch stores, if it stores one. -/
def patched (sqlite : Sqlite) (serde : Serde) (kv : Kv) (now_ms : Int64) (key path : String)
    (value : Json) : Option String :=
  (kv.live key now_ms).bind fun row =>
    match sqlite.json_set row.value path value.print with
    | .error _ => none
    | .ok new_raw => if (serde.fromStr new_raw).isOk then some new_raw else none

/-- What a patch stores is within the cap. -/
def PatchFits (sqlite : Sqlite) (serde : Serde) (config : Config) (kv : Kv) (l : Call × Reply) : Prop :=
  match l.1 with
  | { req := .Patch key path value, swept_at, now_ms, sweep_fault := none, fault := none } =>
    ∀ new_raw ∈ patched sqlite serde (kv.sweep swept_at) now_ms key path value,
      new_raw.utf8ByteSize ≤ config.max_value_bytes
  | _ => True

instance (sqlite : Sqlite) (serde : Serde) (config : Config) (kv : Kv) (l : Call × Reply) :
    Decidable (PatchFits sqlite serde config kv l) := by
  unfold PatchFits
  split
  · exact Option.decidableForallMem _
  · exact inferInstance

/-! ## Runs that are computed -/

def answerCall (sqlite : Sqlite) (serde : Serde) (config : Config)
    (cond : Kv → Call × Reply → Prop) [∀ kv l, Decidable (cond kv l)] (kv : Kv) (call : Call) :
    Option ((Call × Reply) × Kv) :=
  let answered := (handle_with_events sqlite serde config call).exec kv
  if cond kv (call, answered.1) then some ((call, answered.1), answered.2) else none

theorem callStep_answerCall {sqlite : Sqlite} {serde : Serde} {config : Config}
    {cond : Kv → Call × Reply → Prop} [∀ kv l, Decidable (cond kv l)] {kv kv' : Kv} {call : Call}
    {l : Call × Reply} (h : answerCall sqlite serde config cond kv call = some (l, kv')) :
    Transition.Where cond (CallStep sqlite serde config) kv l kv' := by
  unfold answerCall at h
  dsimp only at h
  split_ifs at h with hc
  obtain ⟨rfl, rfl⟩ := Prod.mk.inj (Option.some.inj h)
  exact ⟨rfl, hc⟩

end Database

/-!
## Counters, arrays and times of expiry

What an increment, an append and a value with a time to live owe to the calls that read the key after
them, while the clock goes on during a call.
-/

namespace Database

variable (sqlite : Sqlite) (serde : Serde) (config : Config)

/-- Each call that reads the key at such times finds the value. -/
def Kv.Readable (kv : Kv) (key : String) (value : Json) (times : Int64 → Prop) : Prop :=
  ∀ get : Call, get.req = .Get key → get.sweep_fault = none → get.fault = none →
    times get.swept_at → times get.now_ms →
      ((handle_with_events sqlite serde config get).exec kv).1 =
        .ok (.obj [("found", .bool true), ("value", serde.reread value)], none)

/-! ## Increments and appends -/

/-- The number that a row holds. -/
def counter (key : String) (row : Row) : Option Int :=
  (decode serde key row).toOption.bind Json.asI64

/-- What a key is to hold after an increment or an append, and its expiry. -/
inductive Grown : Option Row → DbRequest → Json → Option Int64 → Prop
  | counter (key : String) (delta : Int64) : Grown none (.Incr key delta) (.int delta.toInt) none
  | sum {key : String} {row : Row} {old : Int} (delta : Int64)
      (hold : counter serde key row = some old) :
      Grown (some row) (.Incr key delta) (.int (old + delta.toInt)) row.expires_at
  | array (key : String) (value : Json) : Grown none (.Append key value) (.arr [value]) none
  | longer {key : String} {row : Row} {items : List Json} (value : Json)
      (hread : decode serde key row = .ok (.arr items)) :
      Grown (some row) (.Append key value) (.arr (items ++ [value])) row.expires_at

/-- The key of an increment or an append. -/
def DbRequest.grows : DbRequest → Option String
  | .Incr key _ => some key
  | .Append key _ => some key
  | _ => none

/-- An increment or an append is not lost. -/
def NotLost (kv : Kv) (call : Call) (kv' : Kv) : Prop :=
  ∀ key, call.req.grows = some key →
    ∃ value expires_at, Grown serde (kv.live key call.now_ms) call.req value expires_at ∧
      (∃ row, kv'[key]? = some row ∧ row.value = value.print ∧ row.expires_at = expires_at) ∧
      kv'.Readable sqlite serde config key value fun t =>
        call.now_ms ≤ t ∧ ∀ e ∈ expires_at, t < e

/-- The sum is one of an `i64`. -/
def InI64 (n : Int) : Prop :=
  -2 ^ 63 ≤ n ∧ n < 2 ^ 63

/-- The row does not expire between the sweep and the action, and the sum of a counter is in range. -/
def Undisturbed (kv : Kv) (call : Call) : Prop :=
  ∀ key, call.req.grows = some key →
    (∀ row ∈ kv[key]?, ∀ e ∈ row.expires_at, ¬ (call.swept_at < e ∧ e ≤ call.now_ms)) ∧
    ∀ delta, call.req = .Incr key delta →
      ∀ row ∈ kv.live key call.now_ms, ∀ old ∈ counter serde key row, InI64 (old + delta.toInt)

/-! ## Arithmetic -/

/-- The number of a key is its value before the call, or zero where there is none. -/
def counted (key : String) : Option Row → Option Int
  | none => some 0
  | some row => counter serde key row

/-- An increment stores and returns the sum, or fails and leaves the key; a value that is set with a time to live is
    found until that has passed. -/
def Exact (kv : Kv) (call : Call) (r : Reply) (kv' : Kv) : Prop :=
  match call.req with
  | .Incr key delta =>
    (∃ old row, counted serde key ((kv.sweep call.swept_at).live key call.now_ms) = some old ∧
      r = .ok (.obj [("ok", .bool true), ("value", .int (old + delta.toInt))],
        some { action := "db_incr", key }) ∧
      kv'[key]? = some row ∧ row.value = (Json.int (old + delta.toInt)).print) ∨
    (∃ e, r = .error e) ∧ ∀ t, call.swept_at ≤ t → kv'.live key t = kv.live key t
  | .Set key value (some ttl_ms) =>
    ∀ reply, r = .ok reply → kv'.Readable sqlite serde config key value fun t =>
      t.toInt < call.now_ms.toInt + ttl_ms.toInt
  | _ => True

/-- The sums of a call that the database takes are in range. -/
def SumsFit (kv : Kv) (call : Call) : Prop :=
  call.sweep_fault = none → call.fault = none →
    match call.req with
    | .Incr key delta =>
      ∀ row ∈ (kv.sweep call.swept_at).live key call.now_ms, ∀ old ∈ counter serde key row,
        InI64 (old + delta.toInt)
    | .Set _ value (some ttl_ms) =>
      value.print.utf8ByteSize ≤ config.max_value_bytes →
        call.now_ms.toInt + ttl_ms.toInt < 2 ^ 63
    | _ => True

end Database

/-!
## The filter for ATTACH

The test that `db_query` makes of a text before SQLite has it (`db.rs`): the bytes of `attach` as a
whole word, unless a quoted text consists of them.
-/

namespace Database

open SqlTokens

def needle : Bytes :=
  "attach".toList.map byte

/-- The first position from one on at which the needle begins. -/
def find_from (haystack needle : Bytes) (start : Nat) : Option Nat :=
  (List.range' start (haystack.length - start)).find? fun pos => needle.isPrefixOf (haystack.drop pos)

/-- The word at a position is no part of a longer one and no quoted text. -/
def bare_word (bytes : Bytes) (pos : Nat) : Bool :=
  let before := if pos = 0 then none else bytes[pos - 1]?
  let after := bytes[pos + needle.length]?
  let before_ok := before.all fun b => !isWordByte b
  let after_ok := after.all fun b => !isWordByte b
  let quote_before := before.filter isQuote
  let quote_after := after.filter isQuote
  before_ok && after_ok && !(quote_before.isSome && quote_before = quote_after)

/-- The loop of `rejects_attach` from a position on. -/
def rejects_from (bytes : Bytes) : Nat → Nat → Bool
  | 0, _ => false
  | fuel + 1, i =>
    match find_from bytes needle i with
    | some pos => bare_word bytes pos || rejects_from bytes fuel (pos + 1)
    | none => false

def rejects_attach (sql : Bytes) : Bool :=
  let bytes := sql.map lower
  rejects_from bytes (bytes.length + 1) 0

/-- A token that makes a word right behind it look like a part of itself: a parameter with a number, or a
    quoted token, if the token behind the word begins with the same quote. -/
def hides (p : Token) (following : Option Token) : Prop :=
  p.kind = .numbered ∧ p.bytes.length ≠ 1 ∨
    (p.kind = .quoted ∨ p.kind = .blob) ∧
      ∃ q, isQuote q = true ∧ p.bytes.getLast? = some q ∧
        (following.bind fun t => t.bytes.head?) = some q

end Database
