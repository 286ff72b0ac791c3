import VynkorPlugins.Base.Async
import VynkorPlugins.Mqtt.Client

/-!
# Actions

The actions of the `mqtt` plugin (`actions.rs`, `stream.rs`, `lib.rs`) that use its client. An action
has the plugin to itself; the task of the event loop moves between any two of its effects. The
devices and their telemetry are left out: nothing fills these tables.
-/

namespace Mqtt

/-- `ready` is the moment at which the plugin takes the action up, `handle` whether it has a client.
    A message is waited for until it comes or the time is over. -/
inductive Eff where
  | ready
  | connect (asked : Connect)
  | client
  | clear_client
  | request (r : Request)
  | set_disconnected
  | new_v4
  | insert_pending (topic : String)
  | reply_rx (timeout_ms : Nat)
  | add_subscription (topic : String) (qos : QoS)
  | remove_subscription (topic : String)
  | count_sent
  | count_received
  | status
  | reply (result : Except MqttError Json)

structure Status where
  connected : Bool
  broker : String
  uptime_ms : Nat
  subscriptions : List String
  messages_sent : Nat
  messages_received : Nat

@[reducible] def Eff.Answer : Eff → Type
  | .ready => Unit
  | .connect _ => Except MqttError Unit
  | .client => Bool
  | .clear_client => Unit
  | .request _ => Except String Unit
  | .set_disconnected => Unit
  | .new_v4 => String
  | .insert_pending _ => Unit
  | .reply_rx _ => Option MqttMessage
  | .add_subscription .. => Unit
  | .remove_subscription _ => Unit
  | .count_sent => Nat
  | .count_received => Nat
  | .status => Status
  | .reply _ => Unit

abbrev Act (α : Type) := Async Eff Eff.Answer α

def await (e : Eff) : Act e.Answer := Async.perform e

/-- The crate of the payloads' other encoding. -/
structure Base64 where
  decode : String → Except String ByteArray

variable (serde : Serde) (base64 : Base64)

/-! ## Parameters -/

def from_slice (params_json : ByteArray) : Except MqttError Json :=
  match serde.fromSlice params_json with
  | .ok params => .ok params
  | .error e => .error (.InvalidParams e)

/-- A text of the parameters, if it is there. -/
def text (params : Json) (name : String) : Option String :=
  (params.get name).bind Json.asStr

/-- A text that has to be there. -/
def required (params : Json) (name : String) : Except MqttError String :=
  match text params name with
  | some s => .ok s
  | none => .error (.InvalidParams (name ++ " is required"))

def number (params : Json) (name : String) (default : Nat) : Nat :=
  ((params.get name).bind Json.asU64).getD default

def qosOf (params : Json) : QoS :=
  match number params "qos" 0 with
  | 0 => .AtMostOnce
  | 1 => .AtLeastOnce
  | 2 => .ExactlyOnce
  | _ => .AtMostOnce

def tlsOf (params : Json) : Option TlsConfig :=
  (params.get "tls").map fun tls_val =>
    { ca_cert_path := text tls_val "ca_cert_path"
      client_cert_path := text tls_val "client_cert_path"
      client_key_path := text tls_val "client_key_path" }

def connectOf (params : Json) : Except MqttError Connect := do
  let broker_host ← required params "broker_host"
  return {
    broker_host
    broker_port := (number params "broker_port" 1883).toUInt16
    client_id := (text params "client_id").getD "vynkor-mqtt-plugin"
    username := text params "username"
    password := text params "password"
    keepalive_secs := (number params "keepalive_secs" 60).toUInt16
    tls := tlsOf params }

/-- The message of `mqtt_publish`. -/
def publishOf (params : Json) : Except MqttError Request := do
  let topic ← required params "topic"
  let payload_str ← required params "payload"
  let payload ←
    if (text params "encoding").getD "utf8" = "base64" then
      match base64.decode payload_str with
      | .ok payload => pure payload
      | .error e => throw (.InvalidParams ("invalid base64: " ++ e))
    else pure payload_str.toUTF8
  let retain := match params.get "retain" with
    | some (.bool b) => b
    | _ => false
  return .Publish topic (qosOf params) retain payload

/-! ## The client -/

namespace MqttClient

def publish (topic : String) (payload : ByteArray) (qos : QoS) (retain : Bool) :
    Act (Except MqttError Unit) := do
  match ← await (.request (.Publish topic qos retain payload)) with
  | .ok () => return .ok ()
  | .error e => return .error (.PublishFailed e)

def subscribe (topic : String) (qos : QoS) : Act (Except MqttError Unit) := do
  match ← await (.request (.Subscribe topic qos)) with
  | .ok () => return .ok ()
  | .error e => return .error (.SubscribeFailed e)

def unsubscribe (topic : String) : Act (Except MqttError Unit) := do
  match ← await (.request (.Unsubscribe topic)) with
  | .ok () => return .ok ()
  | .error e => return .error (.SubscribeFailed e)

/-- The entry of a request is left behind when it cannot be published and when its time is over. -/
def request (request_topic response_topic : String) (payload : ByteArray) (timeout_ms : Nat) :
    Act (Except MqttError MqttMessage) := do
  await (.insert_pending response_topic)
  match ← publish request_topic payload .AtLeastOnce false with
  | .error e => return .error e
  | .ok () =>
    match ← await (.reply_rx timeout_ms) with
    | some msg => return .ok msg
    | none => return .error .Timeout

def disconnect : Act (Except MqttError Unit) := do
  match ← await (.request .Disconnect) with
  | .error e => return .error (.Client e)
  | .ok () =>
    await .set_disconnected
    return .ok ()

end MqttClient

/-! ## Actions -/

abbrev Handled := Except MqttError Json

def handle_connect (params_json : ByteArray) : Act Handled := do
  match from_slice serde params_json >>= connectOf with
  | .error e => return .error e
  | .ok c =>
    match ← await (.connect c) with
    | .error e => return .error e
    | .ok () =>
      return .ok (.obj
        [("broker", .str (c.broker_host ++ ":" ++ toString c.broker_port)), ("connected", .bool true)])

def handle_disconnect : Act Handled := do
  if ← await .client then
    match ← MqttClient.disconnect with
    | .error e => return .error e
    | .ok () =>
      await .clear_client
      return .ok (.obj [("disconnected", .bool true)])
  else
    await .clear_client
    return .ok (.obj [("disconnected", .bool true)])

def handle_publish (params_json : ByteArray) : Act Handled := do
  match from_slice serde params_json >>= publishOf base64 with
  | .error e => return .error e
  | .ok r =>
    if ← await .client then
      match ← await (.request r) with
      | .error e => return .error (.PublishFailed e)
      | .ok () =>
        let sent ← await .count_sent
        return .ok (.obj [("message_id", .int sent), ("published", .bool true)])
    else return .error .NotConnected

def handle_subscribe (params_json : ByteArray) : Act Handled := do
  match from_slice serde params_json >>= fun params => (required params "topic").map (params, ·) with
  | .error e => return .error e
  | .ok (params, topic) =>
    if ← await .client then
      match ← MqttClient.subscribe topic (qosOf params) with
      | .error e => return .error e
      | .ok () =>
        await (.add_subscription topic (qosOf params))
        return .ok (.obj [("subscribed", .bool true), ("subscription_id", .str topic)])
    else return .error .NotConnected

def handle_unsubscribe (params_json : ByteArray) : Act Handled := do
  match from_slice serde params_json >>= fun params => required params "topic" with
  | .error e => return .error e
  | .ok topic =>
    if ← await .client then
      match ← MqttClient.unsubscribe topic with
      | .error e => return .error e
      | .ok () =>
        await (.remove_subscription topic)
        return .ok (.obj [("unsubscribed", .bool true)])
    else return .error .NotConnected

def handle_status : Act Handled := do
  let s ← await .status
  return .ok (.obj
    [("broker", .str s.broker), ("connected", .bool s.connected),
     ("messages_received", .int s.messages_received), ("messages_sent", .int s.messages_sent),
     ("subscriptions", .arr (s.subscriptions.map .str)), ("uptime_ms", .int s.uptime_ms)])

/-! ## Commands of devices -/

/-- A command of a device: what is published for it, and how its answers read. -/
structure Command where
  device_id : String
  message : String → Json
  timeout_ms : Nat

def Command.request_topic (c : Command) : String := "vynkor/" ++ c.device_id ++ "/command"

def Command.response_topic (c : Command) : String := "vynkor/" ++ c.device_id ++ "/response"

def deviceCommandOf (params : Json) : Except MqttError Command := do
  let device_id ← required params "device_id"
  let command ← required params "command"
  let cmd_params := (params.get "params").getD (.obj [])
  let timeout_ms := number params "timeout_ms" 5000
  return {
    device_id
    timeout_ms
    message := fun msg_id => .obj
      [("command", .str command), ("params", cmd_params), ("request_id", .str msg_id),
       ("timeout_ms", .int timeout_ms), ("v", .int 1)] }

def otaCommandOf (params : Json) : Except MqttError Command := do
  let device_id ← required params "device_id"
  let firmware_url ← required params "firmware_url"
  return {
    device_id
    timeout_ms := 30000
    message := fun msg_id => .obj
      [("command", .str "ota_update"), ("params", .obj [("url", .str firmware_url)]),
       ("request_id", .str msg_id), ("v", .int 1)] }

def orNull (j : Option Json) : Json := j.getD .null

/-- The answer to an `mqtt_device_command` whose message has come. -/
def command_answer (response : MqttMessage) : Json :=
  let resp_json := (serde.fromSlice response.payload).toOption.getD
    (.obj [("error", .str "invalid response format")])
  .obj
    [("data", (resp_json.get "response").getD (.obj [])),
     ("error_code", orNull ((resp_json.get "error").bind (·.get "code"))),
     ("error_message", orNull ((resp_json.get "error").bind (·.get "message"))),
     ("execution_ms", orNull ((resp_json.get "response").bind (·.get "execution_ms"))),
     ("success", .bool true)]

def command_timeout (timeout_ms : Nat) : Json :=
  .obj [("error", .str "timeout waiting for device response"), ("success", .bool false),
    ("timeout_ms", .int timeout_ms)]

def ota_answer (msg_id : String) (response : MqttMessage) : Json :=
  .obj [("device_ack", (serde.fromSlice response.payload).toOption.getD (.obj [])),
    ("ota_id", .str msg_id), ("started", .bool true)]

def ota_timeout (msg_id : String) : Json :=
  .obj [("device_ack", .str "timeout (device may still be updating)"), ("ota_id", .str msg_id),
    ("started", .bool true)]

def handle_device_command (params_json : ByteArray) : Act Handled := do
  match from_slice serde params_json >>= deviceCommandOf with
  | .error e => return .error e
  | .ok c =>
    let msg_id ← await .new_v4
    if ← await .client then
      match ← MqttClient.request c.request_topic c.response_topic (c.message msg_id).toVec c.timeout_ms
        with
      | .ok response =>
        let _ ← await .count_sent
        let _ ← await .count_received
        return .ok (command_answer serde response)
      | .error .Timeout =>
        let _ ← await .count_sent
        return .ok (command_timeout c.timeout_ms)
      | .error e => return .error e
    else return .error .NotConnected

def handle_ota_update (params_json : ByteArray) : Act Handled := do
  match from_slice serde params_json >>= otaCommandOf with
  | .error e => return .error e
  | .ok c =>
    let msg_id ← await .new_v4
    if ← await .client then
      match ← MqttClient.request c.request_topic c.response_topic (c.message msg_id).toVec c.timeout_ms
        with
      | .ok response => return .ok (ota_answer serde msg_id response)
      | .error .Timeout => return .ok (ota_timeout msg_id)
      | .error e => return .error e
    else return .error .NotConnected

structure ActionRequest where
  action : String
  params_json : ByteArray

def handle_action (req : ActionRequest) : Act Handled :=
  match req.action with
  | "mqtt_connect" => handle_connect serde req.params_json
  | "mqtt_disconnect" => handle_disconnect
  | "mqtt_publish" => handle_publish serde base64 req.params_json
  | "mqtt_subscribe" => handle_subscribe serde req.params_json
  | "mqtt_unsubscribe" => handle_unsubscribe serde req.params_json
  | "mqtt_status" => handle_status
  | "mqtt_device_command" => handle_device_command serde req.params_json
  | "mqtt_ota_update" => handle_ota_update serde req.params_json
  | action => return .error (.NotFound ("unknown action: " ++ action))

/-- One request of the kernel. -/
def on_message (req : ActionRequest) : Act Unit := do
  await .ready
  let result ← handle_action serde base64 req
  await (.reply result)

end Mqtt
