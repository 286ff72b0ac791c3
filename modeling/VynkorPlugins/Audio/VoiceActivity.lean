import VynkorPlugins.Base.Rust
import VynkorPlugins.Audio.Listen

/-!
# The voice detector

Speech is told from silence by the energy of each chunk (`stt/src/vad.rs`).
-/

namespace Audio

structure VadConfig where
  enabled : Bool := false
  rms_threshold : Int64 := 500
  silence_ms : UInt32 := 1200
  min_speech_ms : UInt32 := 240

namespace VadConfig

/-- A setting that is read, and kept in its range, or else stays as it is. -/
def clamped {α : Type} [LT α] [DecidableLT α] (var : Option String) (parse : String → Option α)
    (lo hi old : α) : α :=
  match var.bind parse with
  | some n => if n < lo then lo else if hi < n then hi else n
  | none => old

/-- `trim().parse::<u32>()` -/
def parseU32 (v : String) : Option UInt32 :=
  (Rust.parseU64 (Rust.trim v)).bind fun n => if n.toNat < 2 ^ 32 then some n.toUInt32 else none

def from_env (var : String → Option String) : VadConfig where
  enabled := (var "STT_PLUGIN_VAD").any fun v =>
    let v := (Rust.trim v).map Char.toLower
    v = "on" || v = "true" || v = "1" || v = "yes"
  rms_threshold := clamped (var "STT_PLUGIN_VAD_RMS_THRESHOLD")
    (fun v => Rust.parseI64 (Rust.trim v).toList) 1 30000 500
  silence_ms := clamped (var "STT_PLUGIN_VAD_SILENCE_MS") parseU32 100 10000 1200
  min_speech_ms := clamped (var "STT_PLUGIN_VAD_MIN_SPEECH_MS") parseU32 50 5000 240

/-- The ranges of the settings. -/
structure InRange (cfg : VadConfig) : Prop where
  rms_threshold : 1 ≤ cfg.rms_threshold ∧ cfg.rms_threshold ≤ 30000
  silence_ms : 100 ≤ cfg.silence_ms ∧ cfg.silence_ms ≤ 10000
  min_speech_ms : 50 ≤ cfg.min_speech_ms ∧ cfg.min_speech_ms ≤ 5000

end VadConfig

/-- How many consecutive loud chunks start speech. -/
def START_STREAK : UInt32 := 2

structure VadState where
  active : Bool := false
  loud_streak : UInt32 := 0
  speech_ms : UInt32 := 0
  silence_ms : UInt32 := 0

/-- The duration of a chunk, of one millisecond at least. -/
def chunk_ms (mono : List Int16) (rate_hz : Nat) : Float32 :=
  let ms := Float32.ofNat mono.length / Float32.ofNat rate_hz * 1000.0
  if ms < 1.0 then 1.0 else ms

/-- `round() as i64`, of a number that is not negative. -/
def roundI64 (x : Float) : Int64 :=
  let n := x.toUInt64
  if Float.ofNat n.toNat + 0.5 ≤ x then n.toInt64 + 1 else n.toInt64

/-- The root of the mean square. -/
def chunk_rms (samples : List Int16) : Int64 :=
  if samples = [] then 0
  else
    let sum_sq := (samples.map fun s => s.toInt64 * s.toInt64).sum
    roundI64 (Float.ofInt sum_sq.toInt / Float.ofNat samples.length).sqrt

def VadConfig.loud (cfg : VadConfig) (mono : List Int16) : Bool := cfg.rms_threshold ≤ chunk_rms mono

/-- Feed one chunk. -/
def VadState.feed (cfg : VadConfig) (s : VadState) (mono : List Int16) (rate_hz : Nat) :
    VadState × VadTransition :=
  if cfg.enabled = false ∨ mono = [] ∨ rate_hz = 0 then (s, .None)
  else
    let ms := chunk_ms mono rate_hz
    if s.active = false then
      if cfg.loud mono then
        let loud_streak := s.loud_streak + 1
        if START_STREAK ≤ loud_streak then
          -- the audio of the streak counts as speech too
          ({ active := true, loud_streak, speech_ms := (ms * Float32.ofNat loud_streak.toNat).toUInt32,
             silence_ms := 0 }, .SpeechStarted)
        else ({ s with loud_streak }, .None)
      else ({ s with loud_streak := 0 }, .None)
    else if cfg.loud mono then
      ({ s with speech_ms := s.speech_ms + ms.toUInt32, silence_ms := 0 }, .None)
    else
      let silence_ms := s.silence_ms + ms.toUInt32
      if silence_ms < cfg.silence_ms then ({ s with silence_ms }, .None)
      else
        ({}, if cfg.min_speech_ms ≤ s.speech_ms then .SpeechEnded s.speech_ms.toNat else .None)

/-- The detector of the listen streams. -/
def VadConfig.detector (cfg : VadConfig) : Vad VadState where
  new := {}
  feed := VadState.feed cfg

/-- What is reported of a sequence of chunks. -/
def VadState.feeds (cfg : VadConfig) (rate_hz : Nat) (s : VadState) : List (List Int16) → List VadTransition
  | [] => []
  | mono :: chunks =>
    let (s, transition) := s.feed cfg mono rate_hz
    transition :: s.feeds cfg rate_hz chunks

/-! ## What a listener hears -/

/-- What has been heard: the duration of the last chunk of an idle stream if that was loud; or, of an
utterance, the durations of its loud chunks and of the quiet chunks after the last of them. -/
inductive Heard
  | idle (streak : Option Nat)
  | speaking (loud quiet : List Nat)

def duration (mono : List Int16) (rate_hz : Nat) : Nat := mono.length * 1000 / rate_hz

/-- A chunk of `ms` milliseconds is heard. -/
def Heard.hear (cfg : VadConfig) (loud : Bool) (ms : Nat) : Heard → Heard × VadTransition
  | idle none => (idle (if loud then some ms else none), .None)
  | idle (some before) => if loud then (speaking [before, ms] [], .SpeechStarted) else (idle none, .None)
  | speaking spoken quiet =>
    if loud then (speaking (spoken ++ [ms]) [], .None)
    else if (quiet ++ [ms]).sum < cfg.silence_ms.toNat then (speaking spoken (quiet ++ [ms]), .None)
    else (idle none, if cfg.min_speech_ms.toNat ≤ spoken.sum then .SpeechEnded spoken.sum else .None)

/-- What a listener reports of a sequence of chunks. -/
def Heard.hears (cfg : VadConfig) (rate_hz : Nat) (h : Heard) : List (List Int16) → List VadTransition
  | [] => []
  | mono :: chunks =>
    let (h, transition) := h.hear cfg (cfg.loud mono) (duration mono rate_hz)
    transition :: h.hears cfg rate_hz chunks

end Audio
