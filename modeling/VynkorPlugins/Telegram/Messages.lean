import VynkorPlugins.Base.Json
import VynkorPlugins.Base.Rust

/-!
# Peers and messages

The peer strings of the `telegram` plugin and the requests that name messages (`lib.rs`), up to the calls
that are made for them.
-/

namespace Telegram

/-- How a request fails: with an error, or with a panic of its task. -/
inductive Fail where
  | error (e : String)
  | panic
deriving DecidableEq

abbrev Handled := Except Fail

/-! ## Peers -/

inductive PeerKind where
  | user
  | chat
  | channel
deriving DecidableEq

/-- `PeerId`: whoever is logged in, or a peer with its bare id. -/
inductive PeerId where
  | self_user
  | peer (kind : PeerKind) (bare_id : Int64)
deriving DecidableEq

/-- `Peer`, as the library reports it. A `group` is a basic group. -/
inductive Peer where
  | user (id : Int64)
  | group (id : Int64)
  | channel (id : Int64)

/-- The constructors of `PeerId`, each of which panics on ids out of its range. -/
structure PeerIds where
  inRange : PeerKind → Int64 → Bool

def PeerIds.make (lib : PeerIds) (kind : PeerKind) (id : Int64) : Handled PeerId :=
  if lib.inRange kind id then .ok (.peer kind id) else .error .panic

def peer_to_string : Peer → String
  | .user id => "user:" ++ (Json.int id.toInt).print
  | .group id => "group:" ++ (Json.int id.toInt).print
  | .channel id => "channel:" ++ (Json.int id.toInt).print

/-- `strip_prefix` -/
def tagged (tag s : String) : Option (List Char) :=
  if tag.toList.isPrefixOf s.toList then some (s.toList.drop tag.length) else none

def parse_id (what : String) (id : List Char) : Handled Int64 :=
  match Rust.parseI64 id with
  | some n => .ok n
  | none => .error (.error ("invalid " ++ what ++ " id: " ++ String.ofList id))

/-- The least integer has no absolute value. -/
def abs_id (id : Int64) : Handled Int64 :=
  if id = Int64.minValue then .error .panic else .ok (if id < 0 then -id else id)

def parse_peer (lib : PeerIds) (s : String) : Handled PeerId :=
  if s = "self" then .ok .self_user
  else
    match tagged "user:" s with
    | some id => (parse_id "user" id).bind (lib.make .user)
    | none =>
    match tagged "chat:" s with
    | some id => (parse_id "chat" id).bind (lib.make .chat)
    | none =>
    match tagged "channel:" s with
    | some id => (parse_id "channel" id).bind (lib.make .channel)
    | none =>
      if s.toList.head? = some '@' then .error (.error "RESOLVE_USERNAME")
      else
        match Rust.parseI64 s.toList with
        | some id => if id < 0 then (abs_id id).bind (lib.make .channel) else lib.make .user id
        | none => .error (.error ("invalid peer format: " ++ s))

/-! ## The account -/

/-- What `get_client` gives for an account. -/
structure Client where
  resolve_username : String → Except String (Option PeerId)
  /-- The peers of the dialogs that are not read, if the dialogs can be fetched. -/
  unread : Except String (List PeerId)

structure Config where
  default_account : String
  check_antiban : String → Except String Unit
  get_client : String → Except String Client

def resolve_peer (lib : PeerIds) (client : Client) (peer_str : String) : Handled PeerId :=
  match parse_peer lib peer_str with
  | .ok p => if peer_str.toList.head? ≠ some '@' then .ok p else .error .panic
  | .error (.error e) =>
    if e = "RESOLVE_USERNAME" then
      let username := String.ofList (peer_str.toList.drop 1)
      match client.resolve_username username with
      | .error e => .error (.error ("resolve @" ++ username ++ " failed: " ++ e))
      | .ok none => .error (.error ("user @" ++ username ++ " not found"))
      | .ok (some p) => .ok p
    else .error (.error e)
  | .error .panic => .error .panic

/-- The text of a member, if it is not blank. -/
def textOf (params : Json) (key : String) : Option String :=
  ((params.get key).bind Json.asStr).filter fun s => Rust.trim s ≠ ""

def resolve_account (params : Json) (config : Config) : String :=
  (textOf params "account").getD config.default_account

def optional_peer (params : Json) : String :=
  (textOf params "peer").getD "self"

def required_str (params : Json) (key action : String) : Handled String :=
  match textOf params key with
  | some s => .ok s
  | none => .error (.error (action ++ ": " ++ key ++ " required"))

/-- The client of the account that a request names. -/
def connect (config : Config) (params : Json) : Handled Client :=
  let account := resolve_account params config
  match config.check_antiban account with
  | .error e => .error (.error e)
  | .ok () => (config.get_client account).mapError .error

/-! ## Requests -/

/-- The MTProto calls of the requests that name messages. -/
inductive Call where
  | delete_messages (peer : PeerId) (ids : List Int32)
  | forward_messages (destination : PeerId) (ids : List Int32) (source : PeerId)
  | read_history (peer : PeerId) (max_id : Int32)
  | mark_as_read (peer : PeerId)

def message_id (action : String) (params : Json) : Handled Nat :=
  match ((params.get "message_id").bind Json.asU64).filter fun id => id ≠ 0 with
  | some id => .ok id
  | none => .error (.error (action ++ ": message_id required"))

/-- Elements that are no unsigned integers are left out; the others are cast. -/
def message_ids (action : String) (params : Json) : Handled (List Int32) :=
  match params.get "message_ids" with
  | some (.arr items) =>
    let ids := (items.filterMap fun v => v.asU64.map Int32.ofNat).filter fun id => id ≠ 0
    if ids = [] then .error (.error (action ++ ": no valid message_ids")) else .ok ids
  | _ => .error (.error (action ++ ": message_ids array required"))

variable (lib : PeerIds) (config : Config) (params : Json)

def handle_delete_message : Handled (List Call) := do
  let peer_str := optional_peer params
  let message_id ← message_id "tg_delete_message" params
  let client ← connect config params
  let peer ← resolve_peer lib client peer_str
  return [.delete_messages peer [Int32.ofNat message_id]]

def handle_forward_message : Handled (List Call) := do
  let from_peer_str ← required_str params "from_peer" "tg_forward_message"
  let to_peer_str ← required_str params "to_peer" "tg_forward_message"
  let message_id ← message_id "tg_forward_message" params
  let client ← connect config params
  let from_peer ← resolve_peer lib client from_peer_str
  let to_peer ← resolve_peer lib client to_peer_str
  return [.forward_messages to_peer [Int32.ofNat message_id] from_peer]

def handle_delete_messages : Handled (List Call) := do
  let peer_str := optional_peer params
  let ids ← message_ids "tg_delete_messages" params
  let client ← connect config params
  let peer ← resolve_peer lib client peer_str
  return [.delete_messages peer ids]

def handle_forward_messages : Handled (List Call) := do
  let from_peer_str ← required_str params "from_peer" "tg_forward_messages"
  let to_peer_str ← required_str params "to_peer" "tg_forward_messages"
  let ids ← message_ids "tg_forward_messages" params
  let client ← connect config params
  let from_peer ← resolve_peer lib client from_peer_str
  let to_peer ← resolve_peer lib client to_peer_str
  return [.forward_messages to_peer ids from_peer]

/-- The first of the members that may hold the id. -/
def lastRead : Option Json :=
  ((params.get "max_id").or (params.get "message_id")).or (params.get "id")

/-- Without a peer, all dialogs are marked. -/
def handle_mark_read : Handled (List Call) := do
  let peer_str := (textOf params "peer").map Rust.trim
  let max_id := (((lastRead params).bind Json.asU64).map Int32.ofNat).getD 0
  let client ← connect config params
  match peer_str with
  | some peer_str =>
    let peer ← resolve_peer lib client peer_str
    return [if max_id ≠ 0 then .read_history peer max_id else .mark_as_read peer]
  | none =>
    let unread ← client.unread.mapError Fail.error
    return unread.map .mark_as_read

inductive Action where
  | delete_message
  | forward_message
  | delete_messages
  | forward_messages
  | mark_read
deriving DecidableEq

/-- The calls for a request that is not refused. -/
def Action.handle : Action → Handled (List Call)
  | .delete_message => handle_delete_message lib config params
  | .forward_message => handle_forward_message lib config params
  | .delete_messages => handle_delete_messages lib config params
  | .forward_messages => handle_forward_messages lib config params
  | .mark_read => handle_mark_read lib config params

end Telegram
