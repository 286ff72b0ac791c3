import VynkorPlugins.Audio.Listen
import VynkorPlugins.Base.Json
import VynkorPlugins.Base.Rust

/-!
# Microphone captures

What a `mic_start` asks for (`mic/src/handler.rs`), and how the sound of its recorder is cut into chunks
for a peer (`mic/src/capture.rs`).
-/

namespace Audio

open Pieces

def SUPPORTED_FORMAT : String := "pcm_s16le"

/-- A number that the handler has found within its bounds. -/
abbrev Within (lo hi : Nat) : Type := {n : Nat // lo ≤ n ∧ n ≤ hi}

/-- The operator's settings. The defaults are read from the environment within the same bounds. -/
structure RecorderConfig where
  recorder_override : Option String := none
  default_device : Option String := none
  default_rate_hz : Within 8000 192000 := ⟨16000, by decide⟩
  default_channels : Within 1 8 := ⟨1, by decide⟩
  default_chunk_ms : Within 10 1000 := ⟨100, by decide⟩

/-! ## Requests -/

structure StartRequest where
  target : String
  format : String
  device : Option String
  sample_rate_hz : Within 8000 192000
  num_channels : Within 1 8
  chunk_ms : Within 10 1000
  stream_id : Option Nat

def asU64 : Json → Option Nat
  | .int n => if 0 ≤ n ∧ n < 2 ^ 64 then some n.toNat else none
  | _ => none

/-- A field that is there and is not null. -/
def present (obj : Json) (key : String) : Option Json :=
  (obj.get key).filter fun v => match v with
    | .null => false
    | _ => true

def optRangeU32 (obj : Json) (key : String) (min max : Nat) :
    Except String (Option (Within min max)) :=
  match present obj key with
  | none => .ok none
  | some v =>
    match asU64 v with
    | none => .error ("ERR_MIC_BAD_PARAMS: '" ++ key ++ "' must be an unsigned integer")
    | some n =>
      if h : min ≤ n ∧ n ≤ max then .ok (some ⟨n, h⟩)
      else
        .error ("ERR_MIC_BAD_PARAMS: '" ++ key ++ "' must be within [" ++ toString min ++ ", "
          ++ toString max ++ "], got " ++ toString n)

/-- A string that is not blank, without the white space around it. -/
def nonEmptyStr (v : Json) (key : String) : Except String String :=
  match v.asStr with
  | none => .error ("ERR_MIC_BAD_PARAMS: '" ++ key ++ "' must be a string")
  | some s =>
    if Rust.trim s = "" then .error ("ERR_MIC_BAD_PARAMS: '" ++ key ++ "' must be non-empty")
    else .ok (Rust.trim s)

namespace StartRequest

def parseTarget (obj : Json) : Except String String :=
  match present obj "target" with
  | none =>
    .error ("ERR_MIC_BAD_PARAMS: 'target' is required (peer to stream the captured PCM to, "
      ++ "e.g. \"stt\")")
  | some v => nonEmptyStr v "target"

def parseFormat (obj : Json) : Except String String :=
  match present obj "format" with
  | none => .ok SUPPORTED_FORMAT
  | some v =>
    match v.asStr with
    | none => .error "ERR_MIC_BAD_PARAMS: 'format' must be a string"
    | some s =>
      if s.map Char.toLower = SUPPORTED_FORMAT then .ok SUPPORTED_FORMAT
      else
        .error ("ERR_MIC_BAD_PARAMS: unsupported 'format' '" ++ s ++ "' (only \""
          ++ SUPPORTED_FORMAT ++ "\" in v0.1)")

def parseDevice (obj : Json) : Except String (Option String) :=
  match present obj "device" with
  | none => .ok none
  | some v => (nonEmptyStr v "device").map some

def parseStreamId (obj : Json) : Except String (Option Nat) :=
  match present obj "stream_id" with
  | none => .ok none
  | some v =>
    match asU64 v with
    | none => .error "ERR_MIC_BAD_PARAMS: 'stream_id' must be an unsigned integer"
    | some n =>
      if n = 0 ∨ 2 ^ 32 - 1 < n then
        .error ("ERR_MIC_BAD_PARAMS: 'stream_id' must be within [1, " ++ toString (2 ^ 32 - 1) ++ "]")
      else .ok (some n)

def parse (params : Json) (cfg : RecorderConfig) : Except String StartRequest :=
  match params with
  | .obj _ => do
    let target ← parseTarget params
    let format ← parseFormat params
    let device ← parseDevice params
    let sample_rate_hz ← optRangeU32 params "sample_rate_hz" 8000 192000
    let num_channels ← optRangeU32 params "num_channels" 1 8
    let chunk_ms ← optRangeU32 params "chunk_ms" 10 1000
    let stream_id ← parseStreamId params
    return {
      target, format, device, stream_id
      sample_rate_hz := sample_rate_hz.getD cfg.default_rate_hz
      num_channels := num_channels.getD cfg.default_channels
      chunk_ms := chunk_ms.getD cfg.default_chunk_ms }
  | _ => .error "ERR_MIC_BAD_PARAMS: params must be a JSON object"

end StartRequest

/-! ## Chunks -/

/-- What a capture task knows of its session. -/
structure SessionMeta where
  id : String
  stream_id : Nat
  target : String
  recorder_bin : String
  device : Option String
  rate_hz : Nat
  channels : Nat
  chunk_ms : Nat

def StartRequest.session (req : StartRequest) (cfg : RecorderConfig) (id recorder_bin : String)
    (stream_id : Nat) : SessionMeta :=
  { id, stream_id, recorder_bin
    target := req.target
    device := req.device.or cfg.default_device
    rate_hz := req.sample_rate_hz
    channels := req.num_channels
    chunk_ms := req.chunk_ms }

def usizeMax : Nat := 2 ^ 64 - 1

def saturatingMul (a b : Nat) : Nat := min (a * b) usizeMax

/-- The bytes of one chunk. -/
def chunkBytes (rate_hz channels chunk_ms : Nat) : Nat :=
  max (saturatingMul (saturatingMul (saturatingMul rate_hz channels) 2) chunk_ms / 1000) 2

def buildChunk (session : SessionMeta) (data : List UInt8) (end_of_stream : Bool) : AudioStreamChunk :=
  { stream_id := session.stream_id
    sample_rate := session.rate_hz
    channels := session.channels
    data, end_of_stream }

namespace SessionMeta

variable (session : SessionMeta)

def frame : Nat := chunkBytes session.rate_hz session.channels session.chunk_ms

/-- The last chunk: what is left, cut to whole samples. -/
def finalChunk (acc : List UInt8) : AudioStreamChunk :=
  buildChunk session (acc.take (acc.length - acc.length % 2)) true

/-- The loop of `run_capture` while its peer takes every chunk. A read of no bytes, a failed one and the
    stop signal all end it. -/
def runCapture (acc : List UInt8) : List (List UInt8) → List AudioStreamChunk
  | [] | [] :: _ => [session.finalChunk acc]
  | read :: reads =>
    let (chunks, rest) := cut session.frame (acc ++ read)
    chunks.map (fun data => buildChunk session data false) ++ runCapture rest reads

end SessionMeta

end Audio
