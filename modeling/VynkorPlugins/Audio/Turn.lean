import VynkorPlugins.Audio.Capture
import VynkorPlugins.Base.Async
import VynkorPlugins.Base.Deadline

/-!
# Voice turns

One cycle of the voice daemon (`daemon/src/lib.rs`): listen, think and speak. A turn is an asynchronous
function of the calls it makes to the other plugins and of what it waits for in between.
-/

namespace Audio

inductive ListenMode
  | Window
  | Vad
  | Ptt

/-- The settings of the daemon. A call may be answered with a timeout at any time, so that the timeouts
    of the calls are left out. -/
structure DaemonConfig where
  mode : ListenMode := .Window
  turn_ms : Nat := 6000
  vad_wait_ms : Nat := 30000
  vad_max_utterance_ms : Nat := 20000
  ptt_binding : String := "ptt"
  ptt_max_hold_ms : Nat := 60000
  sample_rate_hz : Nat := 16000
  chunk_ms : Nat := 100
  stream_id : Int := 7
  stt_target : String := "stt"
  tts_provider : String := "sherpa"
  tts_voice : String := "af_heart"
  tts_format : String := "wav"
  max_steps : Nat := 6

/-- The calls of a turn to other plugins. -/
inductive RpcCall
  | stt_listen_start (stream_id : Int) (sample_rate_hz num_channels : Nat)
  | mic_start (target : String) (stream_id : Int) (sample_rate_hz num_channels chunk_ms : Nat)
  | mic_stop (session_id : String)
  | stt_listen_stop (stream_id : Int)
  | goal_start (goal : String) (max_steps : Nat) (context : String)
  | tts_synthesize (provider voice format text : String)
  | sound_play (data_base64 format : String)

/-- The payload of a turn's result, without its times. -/
structure TurnResult where
  status : String
  transcript : String := ""
  answer : Option String := none
  goal : Option (String × String) := none
  spoken : Bool := false
  error : Option String := none

/-- What ended a vad-mode capture. -/
inductive SpeechEnd
  | Ended
  | Silent
  | MaxUtterance
  deriving DecidableEq

inductive TurnEffect
  | call (call : RpcCall)
  | sleep (ms : Nat)
  | waitForSpeechEnd
  | waitForRelease
  | setCapturing (on : Bool)
  | recentContext
  | rememberExchange (transcript : String) (result : TurnResult)
  | tryBeginTurn
  | endTurn (result : TurnResult)

/-- What the turn gets. Beside the answer of a call stands what the turn does not see: the session that
    the call has opened, if it took effect. -/
abbrev TurnEffect.Reply : TurnEffect → Type
  | .call _ => Except String Json × Option String
  | .waitForSpeechEnd => SpeechEnd
  | .waitForRelease => Except String Unit
  | .recentContext => String
  | .tryBeginTurn => Bool
  | .sleep _ | .setCapturing _ | .rememberExchange _ _ | .endTurn _ => Unit

abbrev Turn (α : Type) : Type := Async TurnEffect TurnEffect.Reply α

namespace Turn

open Async

def effect (e : TurnEffect) : Turn e.Reply := perform e

def rpc (call : RpcCall) : Turn (Except String Json) := do
  let reply ← effect (.call call)
  return reply.1

/-- A string of a payload. -/
def member (payload : Json) (name : String) : Option String :=
  (payload.get name).bind Json.asStr

/-! ## Listening -/

def startCapture (config : DaemonConfig) : Turn (Except String String) := do
  match ← rpc (.stt_listen_start config.stream_id config.sample_rate_hz 1) with
  | .error e => return .error e
  | .ok _ =>
    match ← rpc (.mic_start config.stt_target config.stream_id config.sample_rate_hz 1
        config.chunk_ms) with
    | .error e =>
      let _ ← rpc (.stt_listen_stop config.stream_id)
      return .error e
    | .ok mic =>
      match member mic "session_id" with
      | none => return .error "mic_start returned no session_id"
      | some session_id => return .ok session_id

def finishCapture (config : DaemonConfig) (session_id : String) : Turn (Except String String) := do
  match ← rpc (.mic_stop session_id) with
  | .error e => return .error e
  | .ok _ =>
    match ← rpc (.stt_listen_stop config.stream_id) with
    | .error e => return .error e
    | .ok stop =>
      match member stop "text" with
      | none => return .error "stt_listen_stop returned no text"
      | some text => return .ok text

def listenWindow (config : DaemonConfig) : Turn (Except String String) := do
  match ← startCapture config with
  | .error e => return .error e
  | .ok session =>
    effect (.setCapturing true)
    effect (.sleep config.turn_ms)
    let transcript ← finishCapture config session
    effect (.setCapturing false)
    return transcript

def listenVad (config : DaemonConfig) : Turn (Except String String) := do
  match ← startCapture config with
  | .error e => return .error e
  | .ok session =>
    effect (.setCapturing true)
    let _ ← effect .waitForSpeechEnd
    effect (.setCapturing false)
    finishCapture config session

/-- A turn that nobody holds a key for, or that has no bus, falls back to the window. -/
def listen (config : DaemonConfig) (bus : Bool) : Turn (Except String String) :=
  match config.mode, bus with
  | .Vad, true => listenVad config
  | _, _ => listenWindow config

def pttListen (config : DaemonConfig) : Turn (Except String String) := do
  match ← startCapture config with
  | .error e => return .error e
  | .ok session =>
    let released ← effect .waitForRelease
    let transcript ← finishCapture config session
    match (released : Except String Unit) with
    | .error e => return .error e
    | .ok () => return transcript

/-! ## Thinking and speaking -/

structure AgentAnswer where
  goal_id : String
  goal_status : String
  answer : Option String

def runAgent (config : DaemonConfig) (prompt memory_ctx : String) :
    Turn (Except String AgentAnswer) := do
  match ← rpc (.goal_start prompt config.max_steps memory_ctx) with
  | .error e => return .error e
  | .ok goal =>
    return .ok {
      goal_id := (member goal "id").getD ""
      goal_status := (member goal "status").getD ""
      answer := (member goal "final_answer").filter fun s => Rust.trim s ≠ "" }

def speak (config : DaemonConfig) (text : String) : Turn (Except String Json) := do
  match ← rpc (.tts_synthesize config.tts_provider config.tts_voice config.tts_format text) with
  | .error e => return .error e
  | .ok synth =>
    match member synth "audio_base64" with
    | none => return .error "tts_synthesize returned no audio_base64"
    | some audio_base64 =>
      rpc (.sound_play audio_base64 ((member synth "format").getD config.tts_format))

def respond (config : DaemonConfig) (transcript memory_ctx : String) : Turn TurnResult := do
  if Rust.trim transcript = "" then return { status := "silent", transcript }
  else
    match ← runAgent config transcript memory_ctx with
    | .error e => return { status := "error", transcript, error := some e }
    | .ok answer =>
      let goal := some (answer.goal_id, answer.goal_status)
      match answer.answer with
      | none =>
        let e := "agent finished without an answer (status: " ++ answer.goal_status ++ ")"
        return { status := "error", transcript, goal, error := some e }
      | some text =>
        match ← speak config text with
        | .error e =>
          return { status := "error", transcript, answer := some text, goal, error := some e }
        | .ok _ =>
          return { status := "answered", transcript, answer := some text, goal, spoken := true }

/-! ## Whole turns -/

/-- What follows the listen stage. -/
def answer (config : DaemonConfig) (heard : Except String String) : Turn TurnResult := do
  match heard with
  | .error e => return { status := "error", error := some e }
  | .ok transcript =>
    let memory_ctx ← effect .recentContext
    let result ← respond config transcript memory_ctx
    effect (.rememberExchange transcript result)
    return result

def runVoiceTurn (config : DaemonConfig) (text_override : Option String) (bus : Bool) :
    Turn TurnResult := do
  match text_override with
  | some transcript => answer config (.ok transcript)
  | none => answer config (← listen config bus)

def runPttTurn (config : DaemonConfig) : Turn TurnResult := do
  answer config (← pttListen config)

/-- Who starts a turn: a `daemon_turn`, a tick of the loop, or a pressed key. -/
inductive Starter
  | action (text : Option String) (bus : Bool)
  | tick
  | ptt

/-- A whole turn, if it gets the one slot. -/
def turn (config : DaemonConfig) (starter : Starter) : Turn (Except String TurnResult) := do
  if ← effect .tryBeginTurn then
    match starter with
    | .action text bus =>
      let result ← runVoiceTurn config text bus
      effect (.endTurn result)
      return .ok result
    | .tick =>
      let result ← runVoiceTurn config none true
      effect (.endTurn result)
      return .ok result
    | .ptt =>
      effect (.setCapturing true)
      let result ← runPttTurn config
      effect (.setCapturing false)
      effect (.endTurn result)
      return .ok result
  else return .error "ERR_DAEMON_BUSY: another voice turn is already in progress"

end Turn

end Audio

/-!
## The endpoint of a capture

What a turn waits for while the microphone is open (`wait_for_speech_end` and the loop of `ptt_listen`),
over the events of the bus with their times. The bus is open as long as the daemon runs.
-/

namespace Audio

open Deadline

def EV_HOTKEY_PRESSED : String := "plugin.hotkey.hotkey_pressed"
def EV_HOTKEY_RELEASED : String := "plugin.hotkey.hotkey_released"

/-- An event that was published on the bus. It is lost for the one who waits if his receiver has fallen
    behind by more than the bus retains: then he is only woken and told that he lags. -/
structure BusEvent where
  etype : String
  payload : Json
  lost : Bool := false

def asI64 : Json → Option Int
  | .int n => if -2 ^ 63 ≤ n ∧ n < 2 ^ 63 then some n else none
  | _ => none

namespace DaemonConfig

variable (config : DaemonConfig)

def speechStartedEvent : String := "plugin." ++ config.stt_target ++ ".stt_speech_started"

def speechEndedEvent : String := "plugin." ++ config.stt_target ++ ".stt_speech_ended"

/-- The payload has the stream of the daemon. -/
def ours (e : BusEvent) : Bool :=
  (e.payload.get "stream_id").bind asI64 = some config.stream_id

def isStarted (e : BusEvent) : Bool :=
  config.ours e ∧ e.etype = config.speechStartedEvent

def isEnded (e : BusEvent) : Bool :=
  config.ours e ∧ e.etype = config.speechEndedEvent

/-- The key of the daemon is released. -/
def isRelease (e : BusEvent) : Bool :=
  (e.payload.get "binding").bind Json.asStr = some config.ptt_binding ∧ e.etype = EV_HOTKEY_RELEASED

end DaemonConfig

/-- When a capture was open and the wait began, and what was published while it opened and since. In
    push-to-talk mode it opens when the key is pressed. -/
structure Timeline where
  began : Nat
  opening : List (Arrival BusEvent)
  waiting : List (Arrival BusEvent)
  eventsFirst : Bool
  opening_le : ∀ a ∈ opening, a.time ≤ began
  le_waiting : ∀ a ∈ waiting, began ≤ a.time
  sorted : Sorted (opening ++ waiting)

def Timeline.published (t : Timeline) : List (Arrival BusEvent) :=
  t.opening ++ t.waiting

/-! ## Voice activity -/

/-- The loop of `wait_for_speech_end`: the time of its end, and what ended it. -/
def speechEndLoop (config : DaemonConfig) (eventsFirst : Bool) :
    (speaking : Bool) → (idle_deadline now : Nat) → List (Arrival BusEvent) → Nat × SpeechEnd
  | speaking, idle_deadline, now, arrivals =>
    let until_utterance_cap := now + config.vad_max_utterance_ms
    let deadline := if speaking then until_utterance_cap else idle_deadline
    let expired := if speaking then SpeechEnd.MaxUtterance else SpeechEnd.Silent
    match arrivals with
    | [] => (deadline, expired)
    | a :: rest =>
      if before eventsFirst a.time deadline then
        let now := max now a.time
        if a.event.lost then speechEndLoop config eventsFirst speaking idle_deadline now rest
        else if config.ours a.event = false then
          speechEndLoop config eventsFirst speaking idle_deadline now rest
        else if a.event.etype = config.speechStartedEvent ∧ speaking = false then
          speechEndLoop config eventsFirst true (now + config.vad_wait_ms) now rest
        else if a.event.etype = config.speechEndedEvent then (now, .Ended)
        else speechEndLoop config eventsFirst speaking idle_deadline now rest
      else (deadline, expired)

/-- The receiver is made when the wait begins, so that it gets nothing of what was published before. -/
def waitForSpeechEnd (config : DaemonConfig) (t : Timeline) : Nat × SpeechEnd :=
  speechEndLoop config t.eventsFirst false (t.began + config.vad_wait_ms) t.began t.waiting

/-! ## Push to talk -/

/-- The loop of `ptt_listen`. -/
def releaseLoop (config : DaemonConfig) (eventsFirst : Bool) :
    (now : Nat) → List (Arrival BusEvent) → Nat × Except String Unit
  | now, [] => (now + config.ptt_max_hold_ms,
      .error "hotkey release never arrived (max hold elapsed)")
  | now, a :: rest =>
    if before eventsFirst a.time (now + config.ptt_max_hold_ms) then
      let now := max now a.time
      if a.event.lost then releaseLoop config eventsFirst now rest
      else if config.isRelease a.event then (now, .ok ())
      else releaseLoop config eventsFirst now rest
    else
      (now + config.ptt_max_hold_ms, .error "hotkey release never arrived (max hold elapsed)")

/-- The receiver is that of the task that has got the press. -/
def waitForRelease (config : DaemonConfig) (t : Timeline) : Nat × Except String Unit :=
  releaseLoop config t.eventsFirst t.began t.published

end Audio
