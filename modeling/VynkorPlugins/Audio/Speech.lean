import VynkorPlugins.Audio.Listen
import VynkorPlugins.Base.Async
import VynkorPlugins.Base.Serde
import VynkorPlugins.Base.Transition

/-!
# The serve loop of the speech recognizer

The loop of `stt/src/main.rs`, which `speech` has too, with the listen actions of `handler.rs`. The loop
reads its connection by itself. A call that waits for a reply on the connection reads it too, and takes no
notice of any frame but the reply. `requests` and `heard` record the frames that arrive in either case; no
code reads them.
-/

namespace Audio.Speech

open Async Transition

inductive ActionStatus
  | actionOk
  | actionError
  | actionNotFound

structure ActionRequest where
  action_id : String
  action : String
  params_json : ByteArray

structure ActionResponse where
  action_id : String
  status : ActionStatus
  data_json : ByteArray := .empty
  error : String := ""

inductive Codec
  | pcmS16le
  | other (code : Int)
  deriving DecidableEq

/-- A frame of the kernel. Replies carry the number of the call that they are for. -/
inductive Frame
  | ping (timestamp : Nat)
  | shutdown
  | event (event_id : String)
  | chunk (codec : Codec) (chunk : AudioStreamChunk)
  | request (req : ActionRequest)
  | ack (call : Nat)
  | response (call : Nat) (reply : ActionResponse)
  | other

/-! ## Calls that wait -/

inductive Wait
  | publishEvent (event_type : String) (payload : ByteArray) (timeout_ms : Nat)
  | sendAction (action : String) (params_json : ByteArray) (timeout_ms : Nat)

@[reducible] def Wait.Answer : Wait → Type
  | .publishEvent .. => Except String Unit
  | .sendAction .. => Except String ActionResponse

/-- The answer that a frame is to a call. -/
def Wait.reply (call : Nat) : (w : Wait) → Frame → Option w.Answer
  | .publishEvent .., .ack n => if n = call then some (.ok ()) else none
  | .sendAction .., .response n r => if n = call then some (.ok r) else none
  | _, _ => none

/-- The answer when the time of a call is up. -/
def Wait.timedOut : (w : Wait) → w.Answer
  | .publishEvent .. => .error "timed out"
  | .sendAction .. => .error "timed out"

/-- What a handler does with the connection. -/
abbrev Program (α : Type) : Type := Async Wait Wait.Answer α

def ask (w : Wait) : Program w.Answer := perform w

/-! ## Handlers -/

/-- What the local recognizer makes of some sound. -/
structure Transcript where
  text : String
  language : String
  duration_seconds : Json
  model : String

/-- The reader of payloads, the voice detector, the local recognizer, and the handlers of the other
    actions. -/
structure Service (V : Type) where
  serde : Serde
  detector : Vad V
  transcribe_pcm : List Int16 → Nat → Option String → Except String Transcript
  other : String → Option (ByteArray → Program (Except String ByteArray))

structure ListenStartParams where
  stream_id : Nat
  sample_rate_hz : Nat
  num_channels : Nat
  language : Option String

def LISTEN_DEFAULT_STREAM_ID : Nat := 1

/-- An optional unsigned number below a bound. -/
def optBelow (bound : Nat) : Option Json → Option (Option Nat)
  | none | some .null => some none
  | some (.int n) => if 0 ≤ n ∧ n < bound then some (some n.toNat) else none
  | some _ => none

def optString : Option Json → Option (Option String)
  | none | some .null => some none
  | some (.str s) => some (some s)
  | some _ => none

section

variable {V : Type} (svc : Service V)

def parseListenStart (json : ByteArray) : Except String ListenStartParams :=
  let names := ["stream_id", "sample_rate_hz", "num_channels", "language"]
  match svc.serde.readStruct names json with
  | .error e => .error ("invalid JSON: " ++ e)
  | .ok fields =>
    let stream_id := optBelow (2 ^ 32) (fields.getD 0 none)
    let sample_rate_hz := optBelow (2 ^ 32) (fields.getD 1 none)
    let num_channels := optBelow (2 ^ 16) (fields.getD 2 none)
    let language := optString (fields.getD 3 none)
    match stream_id, sample_rate_hz, num_channels, language with
    | some stream_id, some sample_rate_hz, some num_channels, some language =>
      match sample_rate_hz with
      | none => .error "missing required field: sample_rate_hz"
      | some rate =>
        if rate = 0 then .error "sample_rate_hz must be > 0"
        else if num_channels.getD 1 = 0 then .error "num_channels must be > 0"
        else
          .ok {
            stream_id := stream_id.getD LISTEN_DEFAULT_STREAM_ID
            sample_rate_hz := rate
            num_channels := num_channels.getD 1
            language := language.filter (· ≠ "") }
    | _, _, _, _ => .error ("invalid JSON: " ++ svc.serde.fieldError names json)

def parseListenStop (json : ByteArray) : Except String Nat :=
  match svc.serde.readStruct ["stream_id"] json with
  | .error e => .error ("invalid JSON: " ++ e)
  | .ok fields =>
    match optBelow (2 ^ 32) (fields.getD 0 none) with
    | some stream_id => .ok (stream_id.getD LISTEN_DEFAULT_STREAM_ID)
    | none => .error ("invalid JSON: " ++ svc.serde.fieldError ["stream_id"] json)

/-- The transcript is published before it is answered. -/
def transcribeAndPublish (stream_id : Nat) (stream : ListenStream V) :
    Program (Except String ByteArray) :=
  match svc.transcribe_pcm stream.pcm stream.rate_hz stream.language with
  | .error e => return .error e
  | .ok result => do
    let event := (Json.obj [
      ("duration_seconds", result.duration_seconds), ("language", .str result.language),
      ("model", .str result.model), ("stream_id", .int stream_id), ("text", .str result.text)]).toVec
    match ← ask (.publishEvent "stt_text" event 5000) with
    | .error e => return .error ("failed to publish stt_text event: " ++ e)
    | .ok () => return .ok event

def publishVad (stream_id : Nat) (outcome : ChunkVad) : Program Unit := do
  if outcome.speech_started then
    let payload := (Json.obj [("stream_id", .int stream_id)]).toVec
    let _ ← ask (.publishEvent "stt_speech_started" payload 5000)
  match outcome.speech_ended_ms with
  | some speech_ms =>
    let payload := (Json.obj [("speech_ms", .int speech_ms), ("stream_id", .int stream_id)]).toVec
    let _ ← ask (.publishEvent "stt_speech_ended" payload 5000)
  | none => return ()

end

/-! ## The loop -/

/-- What the loop has sent. -/
inductive Sent
  | pong (timestamp : Nat)
  | eventAck (event_id : String)
  | call (n : Nat) (w : Wait)
  | response (r : ActionResponse)

/-- What the loop does: it reads the connection, or waits for a reply in the midst of a chunk or of an
    action. -/
inductive Busy
  | reading
  | publishing (w : Wait) (k : w.Answer → Program Unit)
  | serving (action_id : String) (w : Wait) (k : w.Answer → Program (Except String ByteArray))

/-- The sound that a stop hands to the recognizer, and the chunks that arrived for it. -/
structure Stop where
  stream_id : Nat
  pcm : List Int16
  heard : List AudioStreamChunk

structure Loop (V : Type) where
  streams : Streams V := ∅
  busy : Busy := .reading
  calls : Nat := 0
  sent : List Sent := []
  down : Bool := false
  stops : List Stop := []
  requests : List ActionRequest := []
  heard : Nat → List AudioStreamChunk := fun _ => []

/-- A frame arrives, or the time of a call is up. -/
inductive Label
  | frame (f : Frame)
  | elapsed

namespace Loop

variable {V : Type} (svc : Service V)

def send (s : Loop V) (out : Sent) : Loop V :=
  { s with sent := s.sent ++ [out] }

/-- The loop goes on after a chunk. -/
def publishing (s : Loop V) : Program Unit → Loop V
  | .done () => { s with busy := .reading }
  | .call w k =>
    { s with calls := s.calls + 1, busy := .publishing w k }.send (.call (s.calls + 1) w)

/-- The loop goes on with an action. -/
def serving (s : Loop V) (action_id : String) : Program (Except String ByteArray) → Loop V
  | .done (.ok data_json) =>
    { s with busy := .reading }.send (.response { action_id, status := .actionOk, data_json })
  | .done (.error error) =>
    { s with busy := .reading }.send (.response { action_id, status := .actionError, error })
  | .call w k =>
    { s with calls := s.calls + 1, busy := .serving action_id w k }.send (.call (s.calls + 1) w)

/-- A stream begins, and with it what is heard of it. -/
def listenStart (s : Loop V) (action_id : String) (json : ByteArray) : Loop V :=
  match parseListenStart svc json with
  | .error e => s.serving action_id (.done (.error e))
  | .ok p =>
    match s.streams.start svc.detector p.stream_id p.sample_rate_hz p.num_channels p.language with
    | .error e => s.serving action_id (.done (.error e))
    | .ok streams =>
      let started := { s with streams, heard := Function.update s.heard p.stream_id [] }
      started.serving action_id (.done (.ok
        (Json.obj [("status", .str "listening"), ("stream_id", .int p.stream_id)]).toVec))

def listenStop (s : Loop V) (action_id : String) (json : ByteArray) : Loop V :=
  match parseListenStop svc json with
  | .error e => s.serving action_id (.done (.error e))
  | .ok stream_id =>
    match s.streams.take stream_id with
    | .error e => s.serving action_id (.done (.error e))
    | .ok (stream, streams) =>
      let stop : Stop := { stream_id, pcm := stream.pcm, heard := s.heard stream_id }
      let stopped := { s with streams, stops := s.stops ++ [stop] }
      if stream.pcm.isEmpty then
        stopped.serving action_id (.done (.error
          ("listen stream " ++ toString stream_id ++ " has no audio buffered")))
      else stopped.serving action_id (transcribeAndPublish svc stream_id stream)

def handleAction (s : Loop V) (req : ActionRequest) : Loop V :=
  match req.action with
  | "stt_listen_start" => s.listenStart svc req.action_id req.params_json
  | "stt_listen_stop" => s.listenStop svc req.action_id req.params_json
  | action =>
    match svc.other action with
    | some handler => s.serving req.action_id (handler req.params_json)
    | none =>
      s.send (.response { action_id := req.action_id, status := .actionNotFound
                          error := "unknown action: " ++ action })

/-- A frame that the loop reads. -/
def read (s : Loop V) : Frame → Loop V
  | .ping timestamp => s.send (.pong timestamp)
  | .shutdown => { s with down := true }
  | .event event_id => s.send (.eventAck event_id)
  | .chunk codec chunk =>
    if codec = .pcmS16le then
      match s.streams.push svc.detector chunk with
      | .ok (streams, outcome) => { s with streams }.publishing (publishVad chunk.stream_id outcome)
      | .error _ => s
    else s
  | .request req => s.handleAction svc req
  | .ack _ | .response .. | .other => s

/-- The chunk is one that its stream accepts. -/
def valid (s : Loop V) (codec : Codec) (chunk : AudioStreamChunk) : Bool :=
  codec = .pcmS16le ∧ (s.streams.push svc.detector chunk).isOk

/-- The record of what arrives. -/
def note (s : Loop V) : Frame → Loop V
  | .request req => { s with requests := s.requests ++ [req] }
  | .chunk codec chunk =>
    if s.valid svc codec chunk then
      { s with
        heard := Function.update s.heard chunk.stream_id (s.heard chunk.stream_id ++ [chunk]) }
    else s
  | _ => s

/-- A call that waits takes its reply and discards every other frame. -/
def await (s : Loop V) (f : Frame) : Loop V :=
  match s.busy with
  | .reading => s
  | .publishing w k =>
    match w.reply s.calls f with
    | some answer => s.publishing (k answer)
    | none => s
  | .serving action_id w k =>
    match w.reply s.calls f with
    | some answer => s.serving action_id (k answer)
    | none => s

def isReading (s : Loop V) : Bool :=
  match s.busy with
  | .reading => true
  | _ => false

def step (s : Loop V) (l : Label) : Option (Loop V) :=
  if s.down then none
  else
    match l with
    | .frame f => some (if s.isReading then (s.note svc f).read svc f else (s.note svc f).await f)
    | .elapsed =>
      match s.busy with
      | .reading => none
      | .publishing w k => some (s.publishing (k w.timedOut))
      | .serving action_id w k => some (s.serving action_id (k w.timedOut))

/-- While a call waits, no request arrives and no chunk that its stream accepts. -/
def orderly (s : Loop V) : Label → Bool
  | .frame (.request _) => s.isReading
  | .frame (.chunk codec chunk) => s.isReading || !s.valid svc codec chunk
  | _ => true

end Loop

end Audio.Speech
