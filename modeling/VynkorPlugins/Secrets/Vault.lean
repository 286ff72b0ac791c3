import VynkorPlugins.Base.Rust
import VynkorPlugins.Base.Serde
import VynkorPlugins.Base.Table
import VynkorPlugins.Base.Transition

/-!
# Secrets

The requests of the secrets plugin with their checks (`request.rs`, `handler.rs`), and what each of them
does to the secrets of a vault (`vault.rs`). A vault file is taken for the secrets that it decrypts to.
-/

namespace Secrets

/-- The limits of a handler, and its reader of payloads. -/
structure Limits where
  serde : Serde
  max_name_bytes : Nat := 256
  max_value_bytes : Nat := 256 * 1024

structure Request where
  caller_plugin_id : String
  action : String
  params_json : ByteArray

inductive Op
  | set (name value : String)
  | get (name : String)
  | delete (name : String)
  | list

inductive Reply
  | stored
  | found (value : Option String)
  | deleted (removed : Bool)
  | names (names : List String)
  deriving DecidableEq

/-! ## Checks -/

def sanitizeCallerId (caller_plugin_id : String) : Except String String :=
  if caller_plugin_id = "" then .error "missing caller_plugin_id"
  else if caller_plugin_id.toList.all fun c => c.isAlphanum || c = '_' || c = '-' then
    .ok caller_plugin_id
  else .error ("invalid caller_plugin_id: " ++ Rust.debug caller_plugin_id)

/-- `{"found":true,"value":…}` and its like. -/
def Reply.payload : Reply → Json
  | .stored => .obj [("stored", .bool true)]
  | .found (some value) => .obj [("found", .bool true), ("value", .str value)]
  | .found none => .obj [("found", .bool false)]
  | .deleted removed => .obj [("deleted", .bool removed)]
  | .names ns => .obj [("names", .arr (ns.map .str))]

namespace Limits

variable (limits : Limits)

def validName (name : String) : Except String Unit :=
  if name = "" then .error "missing secret name"
  else if limits.max_name_bytes < name.utf8ByteSize then
    .error ("secret name too long: " ++ toString name.utf8ByteSize ++ " bytes (max "
      ++ toString limits.max_name_bytes ++ ")")
  else if name.toList.all fun c => c.isAlphanum || c = '_' || c = '.' || c = '-' then .ok ()
  else .error ("invalid secret name: " ++ Rust.debug name)

/-- The string fields of a payload. -/
def readStrings (names : List String) (json : ByteArray) : Except String (List String) :=
  match limits.serde.readStruct names json with
  | .error e => .error ("invalid params: " ++ e)
  | .ok fields =>
    match fields.mapM fun field => field.bind Json.asStr with
    | some values => .ok values
    | none => .error ("invalid params: " ++ limits.serde.fieldError names json)

def parseSetParams (json : ByteArray) : Except String (String × String) := do
  let values ← limits.readStrings ["name", "value"] json
  let value := values.getD 1 ""
  if limits.max_value_bytes < value.utf8ByteSize then
    .error ("secret value too large: " ++ toString value.utf8ByteSize ++ " bytes (max "
      ++ toString limits.max_value_bytes ++ ")")
  else .ok (values.getD 0 "", value)

/-- The parameters of `secret_get` and `secret_delete`. -/
def parseName (json : ByteArray) : Except String String := do
  let values ← limits.readStrings ["name"] json
  return values.getD 0 ""

/-- What a request asks for, once its parameters are checked. -/
def parse (req : Request) : Except String Op :=
  match req.action with
  | "secret_set" => do
    let (name, value) ← limits.parseSetParams req.params_json
    limits.validName name
    return .set name value
  | "secret_get" => do
    let name ← limits.parseName req.params_json
    limits.validName name
    return .get name
  | "secret_delete" => do
    let name ← limits.parseName req.params_json
    limits.validName name
    return .delete name
  | "secret_list" => .ok .list
  | action => .error ("unknown action: " ++ action)

/-- All that a request checks before it asks for its vault. -/
def prepare (req : Request) : Except String (String × Op) := do
  let op ← limits.parse req
  let caller ← sanitizeCallerId req.caller_plugin_id
  return (caller, op)

end Limits

/-! ## Vaults -/

abbrev Contents : Type := Table String String

/-- What a request does to the secrets of a vault, and its answer. -/
def Op.apply (secrets : Contents) : Op → Contents × Reply
  | .set name value => (secrets.insert name value, .stored)
  | .get name => (secrets, .found secrets[name]?)
  | .delete name => (secrets.erase name, .deleted (secrets.contains name))
  | .list => (secrets, .names (secrets.toList.map Prod.fst))

/-- The request has changed the secrets, so that they are written to the file. -/
def Op.persists (secrets : Contents) : Op → Bool
  | .set _ _ => true
  | .delete name => secrets.contains name
  | .get _ | .list => false

end Secrets

/-!
## The tasks of the secrets plugin

Each request runs in a task of its own. The registry of vaults and each vault have a lock; the file of a
vault is read without either of them, and written under the lock of the vault. Beside the state the world
keeps the acknowledged requests, which no task reads.
-/

namespace Secrets

open Transition

/-- A vault in memory. `caller` stands for the path of its file. -/
structure Vault where
  caller : String
  secrets : Contents
  locked : Bool := false

/-- How far the task of a request is. -/
inductive Task
  | received (req : Request)
  | load (caller : String) (op : Op)
  | register (caller : String) (op : Op) (secrets : Contents)
  | lock (caller : String) (op : Op) (vault : Nat)
  | persist (caller : String) (op : Op) (reply : Reply) (vault : Nat)
  | answered (result : Except String Reply)

/-- An acknowledged request. -/
structure Ack where
  task : Nat
  caller : String
  op : Op
  reply : Reply

structure World where
  files : Table String Contents
  vaults : List Vault := []
  registry : Table String Nat := ∅
  tasks : Nat → Task
  acks : List Ack := []

/-- A step of a task. Reading a vault file fails, or writing it, with some error. -/
inductive Label
  | begin (i : Nat)
  | load (i : Nat) (failure : Option String)
  | register (i : Nat)
  | lock (i : Nat)
  | persist (i : Nat) (failure : Option String)

namespace World

/-- The secrets in the file of a caller; where there is none they are empty. -/
def file (s : World) (caller : String) : Contents :=
  s.files[caller]?.getD ∅

def goto (s : World) (i : Nat) (task : Task) : World :=
  { s with tasks := Function.update s.tasks i task }

def setVault (s : World) (v : Nat) (vault : Vault) : World :=
  { s with vaults := s.vaults.set v vault }

/-- The request is answered. -/
def acknowledge (s : World) (i : Nat) (caller : String) (op : Op) (reply : Reply) : World :=
  { s with
    tasks := Function.update s.tasks i (.answered (.ok reply))
    acks := s.acks ++ [{ task := i, caller, op, reply }] }

/-- The checks of a request, and the first lock of the registry in `get_vault`. -/
def begin (limits : Limits) (s : World) (i : Nat) (req : Request) : World :=
  match limits.prepare req with
  | .error e => s.goto i (.answered (.error e))
  | .ok (caller, op) =>
    match s.registry[caller]? with
    | some vault => s.goto i (.lock caller op vault)
    | none => s.goto i (.load caller op)

/-- The vault is put into the registry whether there is one or not. -/
def register (s : World) (i : Nat) (caller : String) (op : Op) (secrets : Contents) : World :=
  { s with
    vaults := s.vaults ++ [{ caller, secrets }]
    registry := s.registry.insert caller s.vaults.length
    tasks := Function.update s.tasks i (.lock caller op s.vaults.length) }

/-- The lock of the vault is taken. It is kept if the file has to be written. -/
def lockVault (s : World) (i : Nat) (caller : String) (op : Op) (v : Nat) (vault : Vault) : World :=
  let (secrets, reply) := op.apply vault.secrets
  if op.persists vault.secrets then
    (s.setVault v { vault with secrets, locked := true }).goto i (.persist caller op reply v)
  else s.acknowledge i caller op reply

/-- The file is written, or not, and the lock is released. -/
def persist (s : World) (i : Nat) (caller : String) (op : Op) (reply : Reply) (v : Nat) (vault : Vault) :
    Option String → World
  | none =>
    let written := { s with files := s.files.insert caller vault.secrets }
    (written.setVault v { vault with locked := false }).acknowledge i caller op reply
  | some e => (s.setVault v { vault with locked := false }).goto i (.answered (.error e))

def step (limits : Limits) (s : World) : Label → Option World
  | .begin i =>
    match s.tasks i with
    | .received req => some (s.begin limits i req)
    | _ => none
  | .load i failure =>
    match s.tasks i with
    | .load caller op =>
      match failure with
      | none => some (s.goto i (.register caller op (s.file caller)))
      | some e => some (s.goto i (.answered (.error e)))
    | _ => none
  | .register i =>
    match s.tasks i with
    | .register caller op secrets => some (s.register i caller op secrets)
    | _ => none
  | .lock i =>
    match s.tasks i with
    | .lock caller op v =>
      match s.vaults[v]? with
      | some vault => if vault.locked then none else some (s.lockVault i caller op v vault)
      | none => none
    | _ => none
  | .persist i failure =>
    match s.tasks i with
    | .persist caller op reply v =>
      (s.vaults[v]?).map fun vault => s.persist i caller op reply v vault failure
    | _ => none

/-- The plugin starts with the files of its callers. -/
def initial (files : Table String Contents) (requests : Nat → Request) : World :=
  { files, tasks := fun i => .received (requests i) }

/-- A vault is registered only where its caller has none, and no write of a file fails. -/
def orderly (s : World) : Label → Bool
  | .register i =>
    match s.tasks i with
    | .register caller _ _ => s.registry[caller]?.isNone
    | _ => true
  | .persist _ failure => failure.isNone
  | _ => true

end World

end Secrets
