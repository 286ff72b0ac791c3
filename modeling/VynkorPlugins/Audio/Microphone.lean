import VynkorPlugins.Audio.Capture
import VynkorPlugins.Base.Serde
import VynkorPlugins.Base.Table
import VynkorPlugins.Base.Transition

/-!
# The microphone plugin

The loop that answers `mic_start`, `mic_stop` and `mic_status` and sends on what the capture tasks have put
into a queue (`mic/src/main.rs`, `handler.rs`, `capture.rs`, `recorders.rs`).
-/

namespace Audio.Mic

open Pieces Transition

structure ActionRequest where
  action_id : String
  action : String
  params_json : ByteArray

inductive ActionStatus
  | actionOk
  | actionError
  | actionNotFound
  deriving DecidableEq

structure ActionResponse where
  action_id : String
  status : ActionStatus
  data_json : Option Json := none
  error : String := ""

/-! ## Recorders -/

def KNOWN_RECORDERS : List String := ["pw-cat", "parec", "arecord"]

def recorderChain : Option String → Except String (List String)
  | some bin =>
    if bin ∈ KNOWN_RECORDERS then .ok [bin]
    else
      .error ("ERR_MIC_BAD_PARAMS: MIC_PLUGIN_RECORDER='" ++ bin ++ "' is not a known recorder "
        ++ "(expected one of: " ++ ", ".intercalate KNOWN_RECORDERS ++ ")")
  | none => .ok KNOWN_RECORDERS

def buildArgs (recorder : String) (rate_hz channels : Nat) (device : Option String) : List String :=
  match recorder with
  | "pw-cat" =>
    ["--record", "--raw", "--format=s16le", "--rate=" ++ toString rate_hz,
      "--channels=" ++ toString channels] ++ (device.map ("--target=" ++ ·)).toList ++ ["-"]
  | "parec" =>
    ["--rate=" ++ toString rate_hz, "--channels=" ++ toString channels, "--format=s16le"]
      ++ (device.map ("--device=" ++ ·)).toList ++ ["-"]
  | "arecord" =>
    ["-q", "-t", "raw", "-f", "S16_LE", "-r", toString rate_hz, "-c", toString channels]
      ++ (device.map fun d => ["-D", d]).getD [] ++ ["-"]
  | _ => ["-"]

/-- Why the system has not started a program. -/
inductive SpawnError
  | notFound
  | other (text : String)

/-- What the system makes of a command line. -/
abbrev Spawn : Type := String → List String → Except SpawnError Unit

/-- A recorder, and whether its output is still to be taken. -/
structure RecorderProcess where
  stdout : Bool

/-- The recorder is started with a pipe for its output. -/
def spawnRecorder (spawn : Spawn) (bin : String) (args : List String) : Except String RecorderProcess :=
  match spawn bin args with
  | .ok () => .ok { stdout := true }
  | .error .notFound => .error ("ERR_MIC_PROVIDER_MISSING: binary '" ++ bin ++ "' not found on PATH")
  | .error (.other e) => .error ("ERR_MIC_SPAWN_FAILED: spawn '" ++ bin ++ "' failed: " ++ e)

/-- The first recorder of the chain that can be started. -/
def spawnFirst (attempt : String → Except String RecorderProcess) :
    List String → List String → Except String (String × RecorderProcess)
  | tried, [] =>
    .error ("ERR_MIC_PROVIDER_MISSING: no working audio recorder found (tried: "
      ++ ", ".intercalate tried ++ "); install pw-cat (pipewire), parec (libpulse) or arecord "
      ++ "(alsa-utils), or pin MIC_PLUGIN_RECORDER")
  | tried, bin :: chain =>
    match attempt bin with
    | .ok recorder => .ok (bin, recorder)
    | .error e =>
      if Rust.contains e "ERR_MIC_PROVIDER_MISSING" then spawnFirst attempt (tried ++ [bin]) chain
      else .error e

/-! ## Captures -/

/-- Where the task of a capture is: reading, with a whole chunk to be put into the queue, with the last
    one to be put there, or at its end. -/
inductive Phase
  | reading (acc : List UInt8)
  | pushing (acc : List UInt8)
  | final (acc : List UInt8)
  | finished

/-- The task of a capture. `heard` is all that it has read, which it does not keep. -/
structure Capture where
  session : SessionMeta
  phase : Phase := .reading []
  stopped : Bool := false
  killed : Bool := false
  chunks_sent : Nat := 0
  heard : List UInt8 := []

namespace Capture

def isFinished (c : Capture) : Bool :=
  match c.phase with
  | .finished => true
  | _ => false

/-- The stop signal is given and the recorder killed. -/
def requestStop (c : Capture) : Capture :=
  { c with stopped := true, killed := true }

/-- The inner loop, as far as it goes without waiting. -/
def resume (c : Capture) (acc : List UInt8) : Capture :=
  if c.session.frame ≤ acc.length then
    { c with phase := .pushing acc, chunks_sent := c.chunks_sent + 1 }
  else { c with phase := .reading acc }

/-- A read. The stop signal comes first. -/
def read (c : Capture) (bytes : List UInt8) : Option Capture :=
  match c.phase with
  | .reading acc =>
    if c.stopped then some { c with phase := .final acc }
    else if bytes = [] then some { c with phase := .final acc }
    else some ({ c with heard := c.heard ++ bytes }.resume (acc ++ bytes))
  | _ => none

/-- The chunk that is to be put into the queue, and how the task goes on. -/
def push (c : Capture) : Option (AudioStreamChunk × Capture) :=
  match c.phase with
  | .pushing acc =>
    some (buildChunk c.session (acc.take c.session.frame) false, c.resume (acc.drop c.session.frame))
  | .final acc => some (c.session.finalChunk acc, { c with phase := .finished })
  | _ => none

end Capture

/-! ## The registry of sessions -/

structure ActiveSession where
  session : SessionMeta
  task : Nat

structure State where
  next_session : Nat := 0
  next_stream : Nat := 0
  sessions : Table String ActiveSession := ∅

namespace State

def allocSessionId (st : State) : State × String :=
  ({ st with next_session := st.next_session + 1 }, "session-" ++ toString (st.next_session + 1))

/-- The counter is a `u32`. -/
def allocStreamId (st : State) : State × Nat :=
  let n := max ((st.next_stream + 1) % 2 ^ 32) 1
  ({ st with next_stream := n }, n)

def notePinnedStreamId (st : State) (id : Nat) : State :=
  if st.next_stream < id then { st with next_stream := id } else st

def insert (st : State) (a : ActiveSession) : State :=
  { st with sessions := st.sessions.insert a.session.id a }

end State

/-- A chunk on its way to a peer, and the capture it is of. -/
structure Outgoing where
  capture : Nat
  target : String
  chunk : AudioStreamChunk

/-- The loop with its state, the tasks of all captures so far, the queue, and what it has sent. -/
structure World where
  state : State := {}
  captures : List Capture := []
  queue : List Outgoing := []
  sent : List Outgoing := []
  responses : List ActionResponse := []
  down : Bool := false

structure App where
  serde : Serde
  cfg : RecorderConfig

/-- How many chunks the queue holds. -/
def CAPACITY : Nat := 256

namespace World

def setCapture (s : World) (k : Nat) (c : Capture) : World :=
  { s with captures := s.captures.set k c }

def setSessions (s : World) (sessions : Table String ActiveSession) : World :=
  { s with state := { s.state with sessions } }

def requestStop (s : World) (k : Nat) : World :=
  { s with captures := s.captures.modify k Capture.requestStop }

def isFinished (s : World) (k : Nat) : Bool :=
  (s.captures[k]?).any Capture.isFinished

def reapFinished (s : World) : World :=
  s.setSessions (s.state.sessions.deleteWhere fun _ a => s.isFinished a.task)

def stopOne (s : World) (id : String) : World × Bool :=
  match s.state.sessions[id]? with
  | some a => ((s.setSessions (s.state.sessions.erase id)).requestStop a.task, true)
  | none => (s, false)

def stopAll (s : World) : World × List String :=
  let sessions := s.state.sessions.toList
  (sessions.foldl (fun s a => s.requestStop a.2.task) (s.setSessions ∅), sessions.map Prod.fst)

/-! ## Handlers -/

/-- A session is registered, and its task started. -/
def startSession (s : World) (st : State) (session : SessionMeta) : World :=
  { s with
    state := st.insert { session, task := s.captures.length }
    captures := s.captures ++ [{ session }] }

def handleStart (s : World) (cfg : RecorderConfig) (spawn : Spawn) (req : StartRequest) :
    World × Except String Json :=
  match recorderChain cfg.recorder_override with
  | .error e => (s, .error e)
  | .ok chain =>
    let device := req.device.or cfg.default_device
    let attempt bin := spawnRecorder spawn bin (buildArgs bin req.sample_rate_hz req.num_channels device)
    match spawnFirst attempt [] chain with
    | .error e => (s, .error e)
    | .ok (recorder_bin, recorder) =>
      let (s, replaced_ids) := s.stopAll
      let (st, session_id) := s.state.allocSessionId
      let (st, stream_id) :=
        match req.stream_id with
        | some pinned => (st.notePinnedStreamId pinned, pinned)
        | none => st.allocStreamId
      if recorder.stdout then
        let session := req.session cfg session_id recorder_bin stream_id
        (s.startSession st session, .ok (.obj [
          ("chunk_ms", .int session.chunk_ms), ("format", .str req.format),
          ("num_channels", .int session.channels), ("ok", .bool true), ("recorder", .str recorder_bin),
          ("replaced", .bool !replaced_ids.isEmpty), ("sample_rate_hz", .int session.rate_hz),
          ("session_id", .str session_id), ("stream_id", .int stream_id),
          ("target", .str session.target)]))
      else
        ({ s with state := st }, .error "ERR_MIC_SPAWN_FAILED: recorder produced no stdout pipe")

def handleStop (s : World) (session_id : Option String) : World × Json :=
  let s := s.reapFinished
  match session_id with
  | some id =>
    let (s, stopped) := s.stopOne id
    (s, .obj [("stopped", .arr (if stopped then [.str id] else []))])
  | none =>
    let (s, stopped) := s.stopAll
    (s, .obj [("stopped", .arr (stopped.map .str))])

def handleStatus (s : World) : World × Json :=
  let s := s.reapFinished
  let capturing := s.state.sessions.toList.map fun (_, a) =>
    Json.obj [
      ("chunk_ms", .int a.session.chunk_ms),
      ("chunks_sent", .int (((s.captures[a.task]?).map Capture.chunks_sent).getD 0)),
      ("device", (a.session.device.map .str).getD .null), ("format", .str SUPPORTED_FORMAT),
      ("id", .str a.session.id), ("num_channels", .int a.session.channels),
      ("recorder", .str a.session.recorder_bin), ("sample_rate_hz", .int a.session.rate_hz),
      ("stream_id", .int a.session.stream_id), ("target", .str a.session.target)]
  (s, .obj [("capturing", .arr capturing), ("count", .int capturing.length)])

def handleAction (app : App) (spawn : Spawn) (s : World) (req : ActionRequest) :
    World × ActionResponse :=
  let respond (r : World × Except String Json) : World × ActionResponse :=
    match r.2 with
    | .ok data => (r.1, { action_id := req.action_id, status := .actionOk, data_json := some data })
    | .error error => (r.1, { action_id := req.action_id, status := .actionError, error })
  match app.serde.fromSlice req.params_json with
  | .error e => respond (s, .error ("invalid params_json: " ++ e))
  | .ok params =>
    match req.action with
    | "mic_start" =>
      match StartRequest.parse params app.cfg with
      | .ok parsed => respond (s.handleStart app.cfg spawn parsed)
      | .error e => respond (s, .error e)
    | "mic_stop" =>
      let (s, data) := s.handleStop ((params.get "session_id").bind Json.asStr)
      respond (s, .ok data)
    | "mic_status" =>
      let (s, data) := s.handleStatus
      respond (s, .ok data)
    | other =>
      (s, { action_id := req.action_id, status := .actionNotFound
            error := "unknown action: " ++ other })

end World

/-! ## The loop -/

/-- What the loop takes up next, or a step of the task of a capture. -/
inductive Label
  | request (req : ActionRequest) (spawn : Spawn)
  | forward
  | shutdown
  | read (k : Nat) (bytes : List UInt8)
  | push (k : Nat)

namespace World

/-- The task of a capture puts a chunk into the queue, as soon as there is room. -/
def push (s : World) (k : Nat) : Option World :=
  match s.captures[k]? with
  | none => none
  | some c =>
    if s.queue.length < CAPACITY then
      c.push.map fun (chunk, c') =>
        { s.setCapture k c' with
          queue := s.queue ++ [{ capture := k, target := c.session.target, chunk }] }
    else none

/-- The loop stops all sessions and leaves. What is in the queue by then, or comes later, is not sent. -/
def shutdown (s : World) : World :=
  { s.stopAll.1 with down := true }

def step (app : App) (s : World) (l : Label) : Option World :=
  if s.down then none
  else
    match l with
    | .request req spawn =>
      let (s, response) := s.handleAction app spawn req
      some { s with responses := s.responses ++ [response] }
    | .forward =>
      match s.queue with
      | out :: queue => some { s with queue, sent := s.sent ++ [out] }
      | [] => none
    | .shutdown => some s.shutdown
    | .read k bytes => (s.captures[k]?).bind fun c => (c.read bytes).map fun c' => s.setCapture k c'
    | .push k => s.push k

/-- The plugin is shut down only when the queue is empty and all captures are at their end. -/
def orderly (s : World) : Label → Bool
  | .shutdown => s.queue.isEmpty && s.captures.all Capture.isFinished
  | _ => true

end World

end Audio.Mic
