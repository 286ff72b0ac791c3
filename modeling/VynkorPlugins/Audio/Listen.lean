import Mathlib.Data.Int.Order.Basic
import VynkorPlugins.Base.Pieces
import VynkorPlugins.Base.Table

/-!
# Listen streams

The recordings that the speech recognizer accumulates (`stt/src/listen.rs`): each chunk is checked,
mixed down to one channel and appended. The voice detector computes with floating point numbers and is
a parameter.
-/

namespace Audio

open Pieces

structure AudioStreamChunk where
  stream_id : Nat
  sample_rate : Nat
  channels : Nat
  data : List UInt8
  end_of_stream : Bool

inductive VadTransition
  | None
  | SpeechStarted
  | SpeechEnded (speech_ms : Nat)
  deriving DecidableEq

structure ChunkVad where
  speech_started : Bool := false
  speech_ended_ms : Option Nat := none

def ChunkVad.fromTransition : VadTransition → ChunkVad
  | .None => {}
  | .SpeechStarted => { speech_started := true }
  | .SpeechEnded speech_ms => { speech_ended_ms := some speech_ms }

/-- How the voice detector starts and what a chunk makes of its state, at the rate of the stream. -/
structure Vad (V : Type) where
  new : V
  feed : V → List Int16 → Nat → V × VadTransition

/-- `i16::from_le_bytes`. -/
def i16FromLeBytes (c : List UInt8) : Int16 :=
  .ofBitVec ((c.getD 1 0).toBitVec ++ (c.getD 0 0).toBitVec)

def samples (data : List UInt8) : List Int16 :=
  (chunksExact 2 data).map i16FromLeBytes

/-- The mean of each frame, rounded towards zero. -/
def downmix (samples : List Int16) (channels : Nat) : List Int16 :=
  if channels ≤ 1 then samples
  else
    (chunksExact channels samples).map fun frame =>
      .ofInt ((frame.map Int16.toInt).sum.tdiv channels)

structure ListenStream (V : Type) where
  stream_id : Nat
  rate_hz : Nat
  channels : Nat
  language : Option String
  pcm : List Int16
  vad : V

namespace ListenStream

variable {V : Type} (detector : Vad V)

/-- What `start` puts into the table of streams. -/
def new (stream_id rate_hz channels : Nat) (language : Option String) : ListenStream V :=
  { stream_id, rate_hz, channels, language, pcm := [], vad := detector.new }

def push (s : ListenStream V) (chunk_rate_hz chunk_channels : Nat) (data : List UInt8) :
    Except String (ListenStream V × ChunkVad) :=
  if chunk_rate_hz ≠ s.rate_hz then
    .error ("stream " ++ toString s.stream_id ++ " rate mismatch: negotiated " ++ toString s.rate_hz
      ++ " Hz, chunk at " ++ toString chunk_rate_hz ++ " Hz")
  else if data.length % 2 ≠ 0 then
    .error ("stream " ++ toString s.stream_id ++ " chunk has odd byte length "
      ++ toString data.length ++ " (expected 16-bit samples)")
  else
    let mono := downmix (samples data) (max chunk_channels 1)
    let (vad, transition) := detector.feed s.vad mono s.rate_hz
    .ok ({ s with pcm := s.pcm ++ mono, vad }, .fromTransition transition)

/-- The serve loop hands a chunk on with its number of channels as a `u16`. -/
def receive (s : ListenStream V) (chunk : AudioStreamChunk) :
    Except String (ListenStream V × ChunkVad) :=
  s.push detector chunk.sample_rate (max chunk.channels 1 % 2 ^ 16) chunk.data

end ListenStream

/-! ## The table of streams -/

/-- All active listen streams by their ids. -/
abbrev Streams (V : Type) := Table Nat (ListenStream V)

namespace Streams

variable {V : Type} (detector : Vad V)

def start (streams : Streams V) (stream_id rate_hz channels : Nat) (language : Option String) :
    Except String (Streams V) :=
  if rate_hz = 0 then .error "listen start requires sample_rate_hz"
  else if channels = 0 then .error "listen start requires num_channels"
  else if streams.contains stream_id then
    .error ("listen stream " ++ toString stream_id ++ " is already active")
  else .ok (streams.insert stream_id (.new detector stream_id rate_hz channels language))

def push (streams : Streams V) (chunk : AudioStreamChunk) : Except String (Streams V × ChunkVad) :=
  match streams[chunk.stream_id]? with
  | none => .error ("no active listen stream " ++ toString chunk.stream_id)
  | some stream => do
    let (stream, vad) ← stream.receive detector chunk
    return (streams.insert chunk.stream_id stream, vad)

def take (streams : Streams V) (stream_id : Nat) : Except String (ListenStream V × Streams V) :=
  match streams[stream_id]? with
  | none => .error ("no active listen stream " ++ toString stream_id)
  | some stream => .ok (stream, streams.erase stream_id)

end Streams

end Audio
