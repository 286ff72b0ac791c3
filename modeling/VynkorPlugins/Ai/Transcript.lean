import VynkorPlugins.Ai.Anthropic
import VynkorPlugins.Ai.OpenAiCompat
import VynkorPlugins.Base.Streaming

/-!
# Stream parsers

The adapters behind one interface (`Provider` and `StreamParser` of `provider/mod.rs`).
-/

namespace Ai

inductive Provider where
  | anthropic
  | openAi

/-- The incremental parser for one streamed response. -/
inductive StreamParser where
  | anthropic (s : AnthropicStream)
  | openAi (s : OpenAiStream)

def Provider.parseResponse (serde : Serde) : Provider → ByteArray → Parsed ChatResult
  | .anthropic => Anthropic.parseResponse serde
  | .openAi => OpenAiCompat.parseResponse serde

def Provider.streamParser : Provider → StreamParser
  | .anthropic => .anthropic {}
  | .openAi => .openAi {}

namespace StreamParser

def feed (serde : Serde) : StreamParser → String → Parsed (StreamParser × List StreamDelta)
  | .anthropic s, data => (s.feed serde data).map fun r => (.anthropic r.1, r.2)
  | .openAi s, data => (s.feed serde data).map fun r => (.openAi r.1, r.2)

def finish (serde : Serde) : StreamParser → Parsed ChatResult
  | .anthropic s => s.finish serde
  | .openAi s => s.finish

end StreamParser

/-- The text that some deltas add up to. -/
def joined (deltas : List StreamDelta) : String :=
  String.join (deltas.map StreamDelta.str)

/-- A stream of `data` payloads gives the result `r`: in its deltas, and when it is finished. -/
def Streams (serde : Serde) (provider : Provider) (data : List String) (r : ChatResult) : Prop :=
  ∃ parser deltas,
    Streaming.feedAll (StreamParser.feed serde) provider.streamParser data = .ok (parser, deltas) ∧
    joined deltas = r.content ∧ parser.finish serde = .ok r

end Ai

/-!
## Responses as event streams

What a provider sends for a response when it streams it, in the terms of the provider's format: the
source has only the readers of it.
-/

namespace Ai

/-! ## The Messages API -/

namespace Anthropic

/-- What an event says. The events that say nothing are pings, the ends of blocks and of the message,
    and increments of other kinds than text and JSON. -/
inductive Event where
  | messageStart (input output : Nat)
  | blockStart (block : Json)
  | textDelta (text : String)
  | jsonDelta (part : String)
  | messageDelta (stop_reason : Option String) (output : Option Nat)
  | quiet

def Event.loud : Event → Bool
  | .quiet => false
  | _ => true

/-- The types of the events that are not always quiet. -/
def spokenTypes : List String :=
  ["message_start", "content_block_start", "content_block_delta", "message_delta", "error"]

def Event.Says : Event → Json → Prop
  | .messageStart input output, v =>
    strOf v "type" = some "message_start" ∧
      (u64At v "/message/usage/input_tokens").getD 0 = input ∧
      (u64At v "/message/usage/output_tokens").getD 0 = output
  | .blockStart block, v =>
    strOf v "type" = some "content_block_start" ∧ v.get "content_block" = some block
  | .textDelta text, v =>
    strOf v "type" = some "content_block_delta" ∧ strAt v "/delta/type" = some "text_delta" ∧
      strAt v "/delta/text" = some text
  | .jsonDelta part, v =>
    strOf v "type" = some "content_block_delta" ∧ strAt v "/delta/type" = some "input_json_delta" ∧
      strAt v "/delta/partial_json" = some part
  | .messageDelta stop_reason output, v =>
    strOf v "type" = some "message_delta" ∧ strAt v "/delta/stop_reason" = stop_reason ∧
      u64At v "/usage/output_tokens" = output
  | .quiet, v =>
    (∀ type ∈ spokenTypes, strOf v "type" ≠ some type) ∨
      strOf v "type" = some "content_block_delta" ∧ strAt v "/delta/type" ≠ some "text_delta" ∧
        strAt v "/delta/type" ≠ some "input_json_delta"

/-- An increment of a block. -/
inductive Delta where
  | text (s : String)
  | json (s : String)

def Delta.event : Delta → Event
  | .text s => .textDelta s
  | .json s => .jsonDelta s

def Delta.textPart : Delta → String
  | .text s => s
  | .json _ => ""

def Delta.jsonPart : Delta → String
  | .text _ => ""
  | .json s => s

def texts (deltas : List Delta) : String := String.join (deltas.map Delta.textPart)

def jsons (deltas : List Delta) : String := String.join (deltas.map Delta.jsonPart)

/-- A content block on the wire: as its start shows it, and the increments up to the next start. -/
structure Part where
  start : Json
  deltas : List Delta

def Part.events (p : Part) : List Event :=
  .blockStart p.start :: p.deltas.map Delta.event

/-- A text that is read as a value which is written like `input`; a blank one stands for `{}`. -/
def Reads (serde : Serde) (text : String) (input : Json) : Prop :=
  if Rust.trim text = "" then input.print = "{}"
  else ∃ v, serde.fromStr text = .ok v ∧ v.print = input.print

/-- A block that is sent as a part: a text in pieces, of which the first may come with the start; the
    input of a tool as pieces of a JSON text. Blocks of other types may send anything. -/
structure Part.Encodes (serde : Serde) (p : Part) (block : Json) : Prop where
  type : strOf p.start "type" = strOf block "type"
  text : strOf block "type" = some "text" →
    (∀ d ∈ p.deltas, ∃ s, d = .text s) ∧
      strOf block "text" = some ((strOf p.start "text").getD "" ++ texts p.deltas)
  tool : strOf block "type" = some "tool_use" →
    (∀ d ∈ p.deltas, ∃ s, d = .json s) ∧ strOf p.start "id" = strOf block "id" ∧
      strOf p.start "name" = strOf block "name" ∧
      ∃ fs, block.get "input" = some (.obj fs) ∧ Reads serde (jsons p.deltas) (.obj fs)

/-- A message on the wire: the counts it starts with, its blocks, and the reasons and counts at its
    end. -/
structure Transcript where
  input : Nat
  output : Nat
  parts : List Part
  closing : List (Option String × Option Nat)

def Transcript.events (t : Transcript) : List Event :=
  .messageStart t.input t.output ::
    (t.parts.flatMap Part.events ++ t.closing.map fun c => .messageDelta c.1 c.2)

/-- `data` are the payloads of events which are, but for the quiet ones, those of the transcript. -/
def Transcript.SentAs (serde : Serde) (t : Transcript) (data : List String) : Prop :=
  ∃ events : List Event, events.filter Event.loud = t.events ∧
    List.Forall₂ (fun e d => ∃ v, serde.fromStr d = .ok v ∧ e.Says v) events data

structure Transcript.Encodes (serde : Serde) (t : Transcript) (resp : Response) : Prop where
  content : List.Forall₂ (Part.Encodes serde) t.parts resp.content
  stop_reason : (t.closing.filterMap Prod.fst).getLast?.getD "" = resp.stop_reason.getD ""
  input : t.input = resp.usage.input_tokens
  output : (t.closing.filterMap Prod.snd).getLast?.getD t.output = resp.usage.output_tokens

/-! ### Blocks that are not surfaced -/

/-- The parser keeps a block for the part. -/
def Part.tracked (p : Part) : Bool :=
  strOf p.start "type" = some "text" || strOf p.start "type" = some "tool_use"

/-- The increments of the blocks up to the next one that is kept. -/
def trailing (parts : List Part) : List Delta :=
  (parts.takeWhile fun p => !p.tracked).flatMap Part.deltas

/-- What the blocks that are not kept send changes nothing when it is put behind what the kept block
    before them sent. -/
def Clean (serde : Serde) : List Part → Prop
  | [] => True
  | p :: rest =>
    (strOf p.start "type" = some "text" → texts (trailing rest) = "") ∧
    (strOf p.start "type" = some "tool_use" → ∀ input, Reads serde (jsons p.deltas) input →
      Reads serde (jsons p.deltas ++ jsons (trailing rest)) input) ∧
    Clean serde rest

end Anthropic

/-! ## Chat completions -/

namespace OpenAiCompat

/-- A piece of a tool call. -/
structure Fragment where
  index : Nat
  id : Option String
  name : String
  arguments : String

structure Fragment.Says (f : Fragment) (v : Json) : Prop where
  index : (v.get "index").bind Json.asU64 = some f.index
  id : strOf v "id" = f.id
  name : (strAt v "/function/name").getD "" = f.name
  arguments : (strAt v "/function/arguments").getD "" = f.arguments

/-- What a chunk adds to the one choice of the response. -/
structure Increment where
  text : String
  finish_reason : Option String
  fragments : List Fragment

structure Increment.Says (i : Increment) (v : Json) : Prop where
  finish_reason : strOf v "finish_reason" = i.finish_reason
  delta : ∃ delta, v.get "delta" = some delta ∧ (strOf delta "content").getD "" = i.text ∧
    ∃ calls, List.Forall₂ Fragment.Says i.fragments calls ∧
      (delta.get "tool_calls" = some (.arr calls) ∨
        calls = [] ∧ (delta.get "tool_calls" = none ∨ delta.get "tool_calls" = some .null))

structure Chunk where
  choice : Option Increment
  usage : Option Usage

def Counts (v : Json) (u : Usage) : Prop :=
  ((v.get "prompt_tokens").bind Json.asU64).getD 0 = u.input_tokens ∧
    ((v.get "completion_tokens").bind Json.asU64).getD 0 = u.output_tokens

structure Chunk.Says (c : Chunk) (v : Json) : Prop where
  error : v.get "error" = none
  choice : match c.choice with
    | none => v.pointer "/choices/0".toList = none
    | some i => ∃ choice, v.pointer "/choices/0".toList = some choice ∧ i.Says choice
  usage : match c.usage with
    | none => v.get "usage" = none ∨ v.get "usage" = some .null
    | some u => ∃ counts, v.get "usage" = some counts ∧ counts ≠ .null ∧ Counts counts u

/-- A response on the wire. -/
abbrev Transcript := List Chunk

def Transcript.increments (t : Transcript) : List Increment := t.filterMap Chunk.choice

def Transcript.fragments (t : Transcript) : List Fragment := t.increments.flatMap Increment.fragments

/-- The pieces of one tool call. -/
def Transcript.piecesOf (t : Transcript) (index : Nat) : List Fragment :=
  t.fragments.filter fun f => f.index = index

/-- Some pieces make up a tool call with a name. -/
structure MakeUp (pieces : List Fragment) (tc : RawToolCall) (f : RawToolCallFunction) : Prop where
  id : (pieces.filterMap Fragment.id).getLast?.getD "" = tc.id
  function : tc.function = some f
  name : String.join (pieces.map Fragment.name) = f.name
  arguments : String.join (pieces.map Fragment.arguments) = f.arguments
  named : f.name ≠ ""

def Transcript.SentAs (serde : Serde) (t : Transcript) (data : List String) : Prop :=
  List.Forall₂ (fun (c : Chunk) d => ∃ v, serde.fromStr d = .ok v ∧ c.Says v) t
    (data.filter fun d => Rust.trim d ≠ "[DONE]")

/-- The text and the tool calls of a choice in pieces, with at least one chunk. -/
structure Transcript.Encodes (t : Transcript) (resp : Response) (choice : Choice) : Prop where
  chunks : t ≠ []
  first : resp.choices.head? = some choice
  content : String.join (t.increments.map Increment.text) = choice.message.content.getD ""
  stop_reason :
    (t.increments.filterMap Increment.finish_reason).getLast?.getD "" = choice.finish_reason.getD ""
  usage : (t.filterMap Chunk.usage).getLast?.getD {} = resp.usage
  calls : ∀ i tc, choice.message.tool_calls[i]? = some tc → ∃ f, MakeUp (t.piecesOf i) tc f
  index : ∀ f ∈ t.fragments, f.index < choice.message.tool_calls.length

end OpenAiCompat

/-! ## Both -/

inductive Transcript where
  | anthropic (t : Anthropic.Transcript)
  | openAi (t : OpenAiCompat.Transcript)

namespace Transcript

def provider : Transcript → Provider
  | .anthropic _ => .anthropic
  | .openAi _ => .openAi

/-- The payloads encode the response in a body. -/
def Encodes (serde : Serde) (body : ByteArray) (data : List String) : Transcript → Prop
  | .anthropic t => t.SentAs serde data ∧
    ∃ fields resp, serde.readStruct Anthropic.responseFields body = .ok fields ∧
      Anthropic.readResponse fields = some resp ∧ t.Encodes serde resp
  | .openAi t => t.SentAs serde data ∧
    ∃ fields resp choice, serde.readStruct OpenAiCompat.responseFields body = .ok fields ∧
      OpenAiCompat.readResponse fields = some resp ∧ t.Encodes resp choice

/-- Nothing that a block which is not surfaced sends is taken for a part of another block. -/
def Clean (serde : Serde) : Transcript → Prop
  | .anthropic t => Anthropic.Clean serde t.parts
  | .openAi _ => True

end Transcript

end Ai
