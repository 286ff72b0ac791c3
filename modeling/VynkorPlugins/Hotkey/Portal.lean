import VynkorPlugins.Base.Json
import VynkorPlugins.Hotkey.Bindings

/-!
# Requests and the portal

The requests of the `hotkey` plugin (`request.rs`, `main.rs`) and the worker that binds all shortcuts anew
for each change (`portal.rs`). The portal may answer each step of a rebind in any way.
-/

namespace Hotkey

/-! ## Requests -/

inductive HotkeyRequest where
  | bind (id trigger description : String)
  | unbind (id : String)
  | list

def MAX_DESCRIPTION_CHARS : Nat := 200

def MAX_TRIGGER_CHARS : Nat := 64

def validate_id (id : String) : Except String Unit :=
  if id ≠ "" ∧ id.utf8ByteSize ≤ 64 ∧
      id.toList.all fun c => c.isLower || c.isDigit || c = '_' || c = '-' || c = '.' then
    .ok ()
  else .error ("invalid binding id '" ++ id ++ "': use 1-64 chars of [a-z0-9_.-]")

def string_field (params : Json) (field : String) : Except String String :=
  match params.get field with
  | some (.str s) =>
    if Rust.trim s ≠ "" then .ok (Rust.trim s) else .error (field ++ " must not be empty")
  | some other => .error (field ++ " must be a string, got " ++ other.print)
  | none => .error ("missing required field '" ++ field ++ "'")

def description_field (params : Json) (id : String) : Except String String :=
  match params.get "description" with
  | none | some .null => .ok ("hotkey " ++ id)
  | some (.str s) =>
    if MAX_DESCRIPTION_CHARS < (Rust.trim s).utf8ByteSize then
      .error ("description exceeds " ++ toString MAX_DESCRIPTION_CHARS ++ " chars")
    else .ok (Rust.trim s)
  | some other => .error ("description must be a string, got " ++ other.print)

/-- Parse the params of an action. -/
def parse (action : String) (params : Json) : Except String HotkeyRequest :=
  match action with
  | "hotkey_bind" => do
    let id ← string_field params "id"
    validate_id id
    let trigger ← string_field params "trigger"
    if MAX_TRIGGER_CHARS < trigger.utf8ByteSize then
      .error ("trigger exceeds " ++ toString MAX_TRIGGER_CHARS ++ " chars")
    else
      let normalized ← (normalize_trigger trigger).mapError ("invalid trigger: " ++ ·)
      let description ← description_field params id
      return .bind id normalized description
  | "hotkey_unbind" => do return .unbind (← string_field params "id")
  | "hotkey_list" | "hotkey_status" => .ok .list
  | other => .error ("unknown action: " ++ other)

/-! ## The worker -/

/-- Ids with their triggers. -/
abbrev Triggers := List (String × String)

def RESPONSE_TIMED_OUT : String := "timed out waiting for the portal response"

/-- What comes of `BindShortcuts`: the call fails, or there is no response, whatever is bound, or there is
    one. -/
inductive Reply where
  | failed (e : String)
  | lost (e : String) (bound : List String)
  | response (code : Nat) (shortcuts : List String)

/-- How the portal answers a rebind, and whether that takes longer than the request waits. -/
structure Answers where
  create : Except String Unit
  reply : Reply
  late : Bool

/-- What is answered for `BindShortcuts`, and the shortcuts that are bound then. -/
def bind_shortcuts (triggers : Triggers) : Reply → Except String Unit × Triggers
  | .failed e => (.error ("BindShortcuts failed: " ++ e), [])
  | .lost e bound => (.error e, triggers.filter fun t => t.1 ∈ bound)
  | .response code shortcuts =>
    if code ≠ 0 then
      (.error ("shortcuts were denied by the desktop (response code " ++ toString code ++ ")"), [])
    else
      let bound := triggers.filter fun t => t.1 ∈ shortcuts
      match triggers.find? fun t => t.1 ∉ shortcuts with
      | some (id, _) => (.error ("shortcut '" ++ id ++ "' was not accepted by the portal"), bound)
      | none => (.ok (), bound)

/-- The session that a rebind ends with, and the shortcuts in it. The old session is closed first. -/
def apply_bindings (triggers : Triggers) (a : Answers) : Except String Unit × Option Triggers :=
  match a.create with
  | .error e => (.error e, none)
  | .ok () =>
    if triggers = [] then (.ok (), some [])
    else
      let r := bind_shortcuts triggers a.reply
      (r.1, some r.2)

/-! ## The plugin -/

/-- The store and the session of the worker, of which there is none in manual mode. -/
structure State where
  store : BindingStore
  portal : Option (Option Triggers)

def triggersOf (store : BindingStore) : Triggers := store.map fun b => (b.id, b.trigger)

/-- Replace the portal's whole shortcut set with the store's content. -/
def State.rebind_portal (s : State) (a : Answers) : Except String Unit × State :=
  match s.portal with
  | none => (.ok (), s)
  | some _ =>
    let r := apply_bindings (triggersOf s.store) a
    (if a.late then .error "timed out waiting for the portal rebind" else r.1, { s with portal := some r.2 })

inductive Answer where
  | bound (id trigger : String)
  | unbound (removed : Bool) (id : String)
  | listed (bindings : List Binding)

/-- The answer to a request, and the state after it. -/
def State.dispatch (s : State) (a : Answers) : HotkeyRequest → Except String Answer × State
  | .bind id trigger description =>
    let r := State.rebind_portal { s with store := s.store.set { id, trigger, description } } a
    (r.1.map fun _ => .bound id trigger, r.2)
  | .unbind id =>
    let removed := s.store.remove id
    let s' := { s with store := removed.1 }
    if removed.2 then
      let r := s'.rebind_portal a
      (r.1.map fun _ => .unbound true id, r.2)
    else (.ok (.unbound false id), s')
  | .list => (.ok (.listed s.store), s)

/-- One request with the answers that the portal has for it. -/
structure Exchange where
  action : String
  params : Except String Json
  answers : Answers

def Exchange.request (e : Exchange) : Except String HotkeyRequest :=
  match e.params with
  | .error err => .error ("malformed params_json: " ++ err)
  | .ok params => parse e.action params

def State.handle_action (s : State) (e : Exchange) : Except String Answer × State :=
  match e.request with
  | .error err => (.error err, s)
  | .ok request => s.dispatch e.answers request

end Hotkey
