import Mathlib.Data.List.DropRight
import VynkorPlugins.Base.Serde
import VynkorPlugins.Base.Table
import VynkorPlugins.Base.Topics

/-!
# The client and its event loop

The data of the `mqtt` plugin (`client.rs`, `error.rs`): the options of a connection, and the client
of one `mqtt_connect` with the task that polls its event loop. Of `rumqttc` it is assumed that a
handle only reaches the event loop that it was made with, and that a new session has no
subscriptions.
-/

namespace Mqtt

inductive MqttError where
  | NotConnected
  | Client (e : String)
  | SubscribeFailed (e : String)
  | PublishFailed (e : String)
  | InvalidParams (e : String)
  | NotFound (e : String)
  | Timeout
  | TlsError (e : String)

def MqttError.toString : MqttError → String
  | .NotConnected => "not connected to MQTT broker"
  | .Client e => "MQTT client error: " ++ e
  | .SubscribeFailed e => "subscribe failed: " ++ e
  | .PublishFailed e => "publish failed: " ++ e
  | .InvalidParams e => "invalid params: " ++ e
  | .NotFound e => "not found: " ++ e
  | .Timeout => "timeout"
  | .TlsError e => "TLS error: " ++ e

inductive QoS where
  | AtMostOnce
  | AtLeastOnce
  | ExactlyOnce
deriving DecidableEq

structure MqttMessage where
  topic : String
  payload : ByteArray
  qos : QoS

/-! ## Options -/

structure TlsConfig where
  ca_cert_path : Option String
  client_cert_path : Option String
  client_key_path : Option String
deriving DecidableEq

inductive Transport where
  | Tcp
  | Tls (config : TlsConfig)
deriving DecidableEq

structure MqttOptions where
  client_id : String
  broker_addr : String
  port : UInt16
  keep_alive_secs : Nat
  credentials : Option (String × String)
  transport : Transport
deriving DecidableEq

/-- `MqttOptions::new` -/
def MqttOptions.new (client_id host : String) (port : UInt16) : MqttOptions where
  client_id
  broker_addr := host
  port
  keep_alive_secs := 60
  credentials := none
  transport := .Tcp

/-- What `mqtt_connect` asks for. -/
structure Connect where
  broker_host : String
  broker_port : UInt16
  client_id : String
  username : Option String
  password : Option String
  keepalive_secs : UInt16
  tls : Option TlsConfig

def Connect.credentials (c : Connect) : Option (String × String) :=
  c.username.map fun user => (user, c.password.getD "")

/-- The options that were asked for. -/
def Connect.asked (c : Connect) : MqttOptions where
  client_id := c.client_id
  broker_addr := c.broker_host
  port := c.broker_port
  keep_alive_secs := c.keepalive_secs.toNat
  credentials := c.credentials
  transport := (c.tls.map .Tls).getD .Tcp

/-- `failure` is the error of the certificate files, if they cannot be read now. -/
def build_transport (failure : Option String) : Option TlsConfig → Except MqttError Transport
  | some cfg =>
    match failure with
    | some e => .error (.TlsError e)
    | none => .ok (.Tls cfg)
  | none => .ok .Tcp

/-- The options of the first connection. -/
def connect_options (failure : Option String) (c : Connect) : Except MqttError MqttOptions :=
  let opts : MqttOptions :=
    { MqttOptions.new c.client_id c.broker_host c.broker_port with
      keep_alive_secs := c.keepalive_secs.toNat
      credentials := c.credentials }
  match build_transport failure c.tls with
  | .error e => .error e
  | .ok transport => .ok { opts with transport }

/-- The options of the connections after it. -/
def reconnect_options (failure : Option String) (c : Connect) : MqttOptions :=
  let opts : MqttOptions :=
    { MqttOptions.new c.client_id c.broker_host c.broker_port with
      keep_alive_secs := 60
      credentials := c.credentials }
  match build_transport failure c.tls with
  | .error _ => opts
  | .ok transport => { opts with transport }

/-- A first connection is opened with the options that were asked for. -/
theorem connect_options_asked {failure : Option String} {c : Connect} {opts : MqttOptions}
    (h : connect_options failure c = .ok opts) : opts = c.asked := by
  unfold connect_options build_transport at h
  cases htls : c.tls with
  | none =>
    rw [htls] at h
    cases h
    simp [Connect.asked, htls, MqttOptions.new]
  | some cfg =>
    rw [htls] at h
    cases failure with
    | some e => cases h
    | none =>
      cases h
      simp [Connect.asked, htls, MqttOptions.new]

/-! ## Event loops -/

/-- A request to an event loop. -/
inductive Request where
  | Publish (topic : String) (qos : QoS) (retain : Bool) (payload : ByteArray)
  | Subscribe (topic : String) (qos : QoS)
  | Unsubscribe (topic : String)
  | Disconnect

/-- The session of one connection: its options, the requests that the handle has put to it, the
    latest one first, and whether the loop still exists. -/
structure EventLoop where
  options : MqttOptions
  requests : List Request
  alive : Bool

def EventLoop.new (options : MqttOptions) : EventLoop where
  options
  requests := []
  alive := true

/-- A topic is subscribed if the last request on it was to subscribe. -/
def Subscribed (topic : String) : List Request → Bool
  | [] => false
  | .Subscribe t _ :: rs => t = topic || Subscribed topic rs
  | .Unsubscribe t :: rs => t ≠ topic && Subscribed topic rs
  | .Publish .. :: rs => Subscribed topic rs
  | .Disconnect :: rs => Subscribed topic rs

/-! ## Clients -/

/-- The client of one `mqtt_connect` and its task. `handle` is the loop of the client's handle,
    `eventloop` the one that the task polls. -/
structure MqttClient where
  asked : Connect
  handle : Nat
  connected : Bool
  /-- The requests that wait for a message, under the topics of their answers. -/
  pending : Table String Nat
  /-- The messages that the task has put into the channel. -/
  messages : List MqttMessage
  eventloop : Nat
  /-- The task has lost its connection and waits to connect again. -/
  sleeping : Bool

def MESSAGE_CHANNEL : Nat := 1000

/-- Nobody reads the channel. When it is full the task waits for room in it, with one message more
    at hand. -/
def MqttClient.stuck (c : MqttClient) : Bool := MESSAGE_CHANNEL < c.messages.length

def MqttClient.new (asked : Connect) (loop : Nat) : MqttClient where
  asked
  handle := loop
  connected := true
  pending := ∅
  messages := []
  eventloop := loop
  sleeping := false

end Mqtt

/-!
## The stream manager

The subscriptions and the dispatch of messages to them (`stream.rs`).
-/

namespace Mqtt

structure Subscription where
  topic : String
  qos : QoS
  /-- The channel that the subscription's messages are sent to. -/
  sender : Nat

/-- The map of the subscriptions, in the order in which it is iterated. -/
structure StreamManager where
  subscriptions : List (String × Subscription)
  nodup : (subscriptions.map Prod.fst).Nodup
  topics : ∀ entry ∈ subscriptions, entry.2.topic = entry.1

namespace StreamManager

def get (m : StreamManager) (topic : String) : Option Subscription :=
  (m.subscriptions.find? fun entry => entry.1 = topic).map Prod.snd

/-- The topic begins with the pattern, less the `#` at its end. -/
def begins (pattern topic : List Char) : Bool := (pattern.rdropWhile (· = '#')).isPrefixOf topic

/-- The levels agree one by one. -/
def levelwise (pattern topic : List Char) : Bool :=
  let pattern_parts := pattern.splitOn '/'
  let topic_parts := topic.splitOn '/'
  pattern_parts.length == topic_parts.length &&
    (pattern_parts.zip topic_parts).all fun p => p.1 = ['+'] || p.1 = p.2

/-- The subscription to `pattern` is sent a message on a topic nobody has subscribed to by its name. -/
def receives (pattern topic : List Char) : Bool :=
  if pattern.getLast? = some '#' then begins pattern topic
  else if pattern.contains '+' then levelwise pattern topic
  else false

/-- Whom a message is sent to, in order. -/
def dispatch (m : StreamManager) (msg : MqttMessage) : List (Subscription × MqttMessage) :=
  match m.get msg.topic with
  | some sub => [(sub, msg)]
  | none =>
    (m.subscriptions.filter fun entry => receives entry.1.toList msg.topic.toList).map fun entry =>
      (entry.2, msg)

end StreamManager

end Mqtt
