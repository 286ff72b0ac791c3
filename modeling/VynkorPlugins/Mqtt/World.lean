import Mathlib.Data.List.Basic
import VynkorPlugins.Base.Transition
import VynkorPlugins.Mqtt.Actions

/-!
# The plugin, its clients and their event loops

The requests of the kernel, one at a time, and the tasks of all clients that there have been: each
one hands on what devices publish, loses its connection and connects again at any time. Beside them
the world keeps a history of the run, which nothing reads.
-/

namespace Mqtt

open Async

/-- The receiving end of a request that waits for its message. -/
structure Receiver where
  id : Nat
  reply : Option MqttMessage

/-- What has happened. -/
structure History where
  /-- The id that a command has sent. -/
  request_id : Nat → Option String
  /-- The messages that commands were answered with. -/
  answered : List (Nat × MqttMessage)
  /-- The messages that were consumed for commands that had ended. -/
  late : List (Nat × MqttMessage)
  replies : List (Nat × Except MqttError Json)

structure World where
  loops : Nat → EventLoop
  next_loop : Nat
  clients : Nat → MqttClient
  next_client : Nat
  /-- The client of the plugin. -/
  client : Option Nat
  /-- The table of the subscriptions. -/
  subscriptions : Table String QoS
  messages_sent : Nat
  messages_received : Nat
  /-- The request that has the plugin. -/
  busy : Option Nat
  receiver : Option Receiver
  uptime_ms : Nat
  /-- The error of the next request to a loop, and of the certificate files. -/
  refusal : Option String
  tls_failure : Option String
  /-- The next id. -/
  uuid : String
  /-- The time of a request that waits for a message is over. -/
  expired : Bool
  history : History

namespace World

variable (w : World)

/-- The client of the plugin, if it has one. -/
def current : Option MqttClient := w.client.map w.clients

def setClient (n : Nat) (c : MqttClient) : World :=
  { w with clients := Function.update w.clients n c }

/-- A new session, from now on the last one. -/
def openLoop (options : MqttOptions) : World :=
  { w with
    loops := Function.update w.loops w.next_loop (.new options)
    next_loop := w.next_loop + 1 }

/-! ## Effects of an action -/

/-- `MqttClient::connect`, whose client becomes that of the plugin. -/
def connect (asked : Connect) (options : MqttOptions) : World :=
  { (w.openLoop options).setClient w.next_client (.new asked w.next_loop) with
    next_client := w.next_client + 1
    client := some w.next_client }

/-- A request reaches the loop of the client's handle, if that loop still exists. -/
def request (c : MqttClient) (r : Request) : Except String World :=
  let loop := w.loops c.handle
  match w.refusal with
  | some e => .error e
  | none =>
    if loop.alive then
      .ok { w with
        loops := Function.update w.loops c.handle { loop with requests := r :: loop.requests } }
    else .error "Failed to send mqtt requests to eventloop"

def status : Status where
  connected := w.client.isSome
  broker := (w.current.map fun c =>
    c.asked.broker_host ++ ":" ++ toString c.asked.broker_port).getD ""
  uptime_ms := w.uptime_ms
  subscriptions := w.subscriptions.keys
  messages_sent := w.messages_sent
  messages_received := w.messages_received

/-- A request waits for a message on a topic. -/
def insert_pending (i n : Nat) (topic : String) : World :=
  { w.setClient n { w.clients n with pending := (w.clients n).pending.insert topic i } with
    receiver := some { id := i, reply := none } }

/-- A message, once it has come. The receiving end is gone then. -/
def take (i : Nat) (msg : MqttMessage) : World :=
  { w with
    receiver := none
    history := { w.history with answered := (i, msg) :: w.history.answered } }

/-- What an action is answered, and what becomes of the world; an action that is not answered waits.
    A request that is not published has no receiving end any more. -/
def serve (i : Nat) : (e : Eff) → World → Option (e.Answer × World)
  | .ready, w => if w.busy = none then some ((), { w with busy := some i }) else none
  | .connect asked, w =>
    match connect_options w.tls_failure asked with
    | .error e => some (.error e, w)
    | .ok options => some (.ok (), w.connect asked options)
  | .client, w => some (w.client.isSome, w)
  | .clear_client, w => some ((), { w with client := none })
  | .request r, w =>
    match w.current with
    | none => none
    | some c =>
      match w.request c r with
      | .ok w' => some (.ok (), w')
      | .error e => some (.error e, { w with receiver := none })
  | .set_disconnected, w =>
    match w.client with
    | none => none
    | some n => some ((), w.setClient n { w.clients n with connected := false })
  | .new_v4, w =>
    some (w.uuid, { w with history := { w.history with
      request_id := Function.update w.history.request_id i (some w.uuid) } })
  | .insert_pending topic, w =>
    match w.client with
    | none => none
    | some n => some ((), w.insert_pending i n topic)
  | .reply_rx _, w =>
    match w.receiver with
    | none => none
    | some r =>
      if r.id = i then
        match r.reply with
        | some msg => some (some msg, w.take i msg)
        | none => if w.expired then some (none, { w with receiver := none }) else none
      else none
  | .add_subscription topic qos, w =>
    some ((), { w with subscriptions := w.subscriptions.insert topic qos })
  | .remove_subscription topic, w =>
    some ((), { w with subscriptions := w.subscriptions.erase topic })
  | .count_sent, w =>
    some (w.messages_sent + 1, { w with messages_sent := w.messages_sent + 1 })
  | .count_received, w =>
    some (w.messages_received + 1, { w with messages_received := w.messages_received + 1 })
  | .status, w => some (w.status, w)
  | .reply result, w =>
    some ((), { w with
      busy := none
      history := { w.history with replies := (i, result) :: w.history.replies } })

/-! ## The task of a client -/

/-- A message for which an entry waits is sent to the receiving end of its request, if that is still
    there. -/
def deliver (i : Nat) (msg : MqttMessage) : World :=
  match w.receiver with
  | some r =>
    if r.id = i then { w with receiver := some { r with reply := some msg } }
    else { w with history := { w.history with late := (i, msg) :: w.history.late } }
  | none => { w with history := { w.history with late := (i, msg) :: w.history.late } }

/-- The loop of a client gets a message. The channel of a client that is dropped takes none. -/
def publish (n : Nat) (msg : MqttMessage) : World :=
  let c := w.clients n
  match c.pending[msg.topic]? with
  | some i => (w.setClient n { c with pending := c.pending.erase msg.topic }).deliver i msg
  | none =>
    if w.client = some n then w.setClient n { c with messages := c.messages ++ [msg] } else w

/-- The loop of a client loses its connection. -/
def lose (n : Nat) : World :=
  w.setClient n { w.clients n with connected := false, sleeping := true }

/-- The task connects again. The loop that it polled before is gone, and the handle of the new one
    is dropped. -/
def reconnect (n : Nat) : World :=
  let c := w.clients n
  let w' := { w with loops := Function.update w.loops c.eventloop { w.loops c.eventloop with alive := false } }
  (w'.openLoop (reconnect_options w.tls_failure c.asked)).setClient n
    { c with connected := true, sleeping := false, eventloop := w.next_loop }

end World

/-! ## Steps -/

/-- What changes by itself. -/
structure Weather where
  uptime_ms : Nat
  refusal : Option String
  tls_failure : Option String
  uuid : String
  expired : Bool

def World.turn (w : World) (l : Weather) : World :=
  { w with
    uptime_ms := l.uptime_ms
    refusal := l.refusal
    tls_failure := l.tls_failure
    uuid := l.uuid
    expired := l.expired }

/-- What comes from outside. -/
inductive EnvLabel where
  | message (n : Nat) (msg : MqttMessage)
  | lost (n : Nat)
  | reconnected (n : Nat)
  | turn (l : Weather)

/-- A loop that is polled. -/
def World.Polled (w : World) (n : Nat) : Prop :=
  n < w.next_client ∧ (w.clients n).sleeping = false ∧
    (w.client = some n → (w.clients n).stuck = false)

instance (w : World) (n : Nat) : Decidable (w.Polled n) := by
  unfold World.Polled
  infer_instance

def World.env : World → EnvLabel → Option World
  | w, .message n msg => if w.Polled n then some (w.publish n msg) else none
  | w, .lost n => if w.Polled n then some (w.lose n) else none
  | w, .reconnected n =>
    if n < w.next_client ∧ (w.clients n).sleeping = true then some (w.reconnect n) else none
  | w, .turn l => some (w.turn l)

/-- An action is answered by the world as it is. -/
def Handle (i : Nat) (w : World) (e : Eff) (r : e.Answer) (w' : World) : Prop :=
  World.serve i e w = some (r, w')

def Env (w : World) (l : EnvLabel) (w' : World) : Prop := w.env l = some w'

abbrev Plugin := Pool Nat Eff Eff.Answer Unit World

abbrev Label := PoolLabel Nat Eff Eff.Answer EnvLabel

abbrev Step : Plugin → Label → Plugin → Prop := PoolStep Handle Env

def Connect.none : Connect where
  broker_host := ""
  broker_port := 0
  client_id := ""
  username := .none
  password := .none
  keepalive_secs := 0
  tls := .none

/-- `MqttPlugin::new` -/
def World.new : World where
  loops _ := { options := .new "" "" 0, requests := [], alive := false }
  next_loop := 0
  clients _ := .new .none 0
  next_client := 0
  client := none
  subscriptions := ∅
  messages_sent := 0
  messages_received := 0
  busy := none
  receiver := none
  uptime_ms := 0
  refusal := none
  tls_failure := none
  uuid := ""
  expired := false
  history := { request_id := fun _ => none, answered := [], late := [], replies := [] }

/-- No request has begun. -/
def Plugin.start (serde : Serde) (base64 : Base64) (requests : Nat → ActionRequest) : Plugin where
  tasks i := on_message serde base64 (requests i)
  world := .new

/-! ## Answers of devices -/

/-- The id of the command that a message answers. -/
def request_id (serde : Serde) (msg : MqttMessage) : Option String :=
  ((serde.fromSlice msg.payload).toOption.bind (·.get "request_id")).bind Json.asStr

/-- A command is reported as answered with a message of its own. -/
def FromOwn (serde : Serde) (action : String) (id : Option String) (own : MqttMessage → Prop) :
    Except MqttError Json → Prop
  | .error _ => True
  | .ok v =>
    (action = "mqtt_device_command" →
      (∃ timeout_ms, v = command_timeout timeout_ms) ∨ ∃ msg, own msg ∧ v = command_answer serde msg) ∧
    (action = "mqtt_ota_update" → ∃ msg_id, id = some msg_id ∧
      (v = ota_timeout msg_id ∨ ∃ msg, own msg ∧ v = ota_answer serde msg_id msg))

/-- Each command gets its own answer. -/
structure OwnAnswers (serde : Serde) (requests : Nat → ActionRequest) (w : World) : Prop where
  /-- What a command is answered with carries the id that it has sent, -/
  own : ∀ i msg, (i, msg) ∈ w.history.answered →
    ∃ id, w.history.request_id i = some id ∧ request_id serde msg = some id
  /-- and is what it reports; -/
  reported : ∀ i res, (i, res) ∈ w.history.replies →
    FromOwn serde (requests i).action (w.history.request_id i)
      (fun msg => (i, msg) ∈ w.history.answered) res
  /-- no message is consumed for a command that has ended. -/
  late : w.history.late = []

/-- A message comes on a topic where an entry waits only while the command of that entry waits for
    it, and it carries the id that this command has sent. -/
def Answering (serde : Serde) (w : World) : Label → Prop
  | .env (.message n msg) =>
    match (w.clients n).pending[msg.topic]? with
    | none => True
    | some i =>
      w.receiver.map Receiver.id = some i ∧ (w.history.request_id i).isSome = true ∧
        request_id serde msg = w.history.request_id i
  | _ => True

instance (serde : Serde) (w : World) (l : Label) : Decidable (Answering serde w l) := by
  unfold Answering
  split
  · split <;> infer_instance
  · infer_instance

/-! ## Sessions -/

/-- The topic that a request unsubscribes from. -/
def leaves (serde : Serde) (req : ActionRequest) : Option String :=
  if req.action = "mqtt_unsubscribe" then
    (from_slice serde req.params_json >>= fun params => required params "topic").toOption
  else none

/-- The session of a client that is online: its handle feeds the loop that is polled, which has been
    opened with the options that were asked for and is subscribed to what is listed. A topic that a
    request in progress unsubscribes from is left aside. -/
structure Session (serde : Serde) (requests : Nat → ActionRequest) (w : World) (c : MqttClient) :
    Prop where
  polled : c.sleeping = false
  feeds : c.handle = c.eventloop
  alive : (w.loops c.eventloop).alive = true
  options : (w.loops c.eventloop).options = c.asked.asked
  subscribed : ∀ topic, w.subscriptions[topic]? ≠ none →
    (∀ i, w.busy = some i → leaves serde (requests i) ≠ some topic) →
      Subscribed topic (w.loops c.eventloop).requests = true

/-- Whenever the client of the plugin is online, its session is as it should be. -/
def Transparent (serde : Serde) (requests : Nat → ActionRequest) (w : World) : Prop :=
  ∀ c, w.current = some c → c.connected = true → Session serde requests w c

/-- The client of the plugin does not connect again, and a new client is made while no topic is
    listed. -/
def Unbroken (w : World) : Label → Prop
  | .env (.reconnected n) => w.client ≠ some n
  | .act _ (.connect _) (.ok _) => w.subscriptions.keys = []
  | _ => True

instance (w : World) (l : Label) : Decidable (Unbroken w l) := by
  unfold Unbroken
  split <;> infer_instance

/-! ## Runs that are computed -/

/-- The next effect of an action, or something from outside. -/
inductive Move where
  | act (i : Nat)
  | env (l : EnvLabel)

def answerMove (cond : World → Label → Prop) [∀ w l, Decidable (cond w l)] (p : Plugin) :
    Move → Option (Label × Plugin)
  | .act i =>
    match p.tasks i with
    | .done _ => none
    | .call e k =>
      match World.serve i e p.world with
      | none => none
      | some (r, w') =>
        if cond p.world (.act i e r) then
          some (.act i e r, { tasks := Function.update p.tasks i (k r), world := w' })
        else none
  | .env l =>
    match p.world.env l with
    | none => none
    | some w' => if cond p.world (.env l) then some (.env l, { p with world := w' }) else none

theorem step_answerMove {cond : World → Label → Prop} [∀ w l, Decidable (cond w l)]
    {p p' : Plugin} {a : Move} {l : Label} (h : answerMove cond p a = some (l, p')) :
    Transition.Where (fun p l => cond p.world l) Step p l p' := by
  unfold answerMove at h
  split at h
  · rename_i i
    split at h
    · cases h
    · rename_i e k htask
      split at h
      · cases h
      · rename_i r w' hserve
        split_ifs at h with hc
        obtain ⟨rfl, rfl⟩ := Prod.mk.inj (Option.some.inj h)
        exact ⟨.act htask hserve, hc⟩
  · rename_i l
    split at h
    · cases h
    · rename_i w' henv
      split_ifs at h with hc
      obtain ⟨rfl, rfl⟩ := Prod.mk.inj (Option.some.inj h)
      exact ⟨.env henv, hc⟩

def noBase64 : Base64 where
  decode _ := .error ""

/-- The plugin moves as it is told. -/
def runMoves (requests : Nat → ActionRequest) (cond : World → Label → Prop)
    [∀ w l, Decidable (cond w l)] (moves : List Move) : Option (List Label × Plugin) :=
  Transition.runOf (answerMove cond) (.start .compact noBase64 requests) moves

theorem run_runMoves {requests : Nat → ActionRequest} {cond : World → Label → Prop}
    [∀ w l, Decidable (cond w l)] {moves : List Move} {res : List Label × Plugin}
    (h : runMoves requests cond moves = some res) :
    Transition.Run (Transition.Where (fun p l => cond p.world l) Step)
      (.start .compact noBase64 requests) res.1 res.2 :=
  Transition.run_runOf (fun _ _ _ _ h => step_answerMove h) h

end Mqtt
