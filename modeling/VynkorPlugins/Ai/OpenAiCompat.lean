import VynkorPlugins.Ai.Provider

/-!
# The chat completions adapter

How a response of an OpenAI-compatible service is parsed, as a whole and as a stream
(`provider/openai_compat.rs`).
-/

namespace Ai

namespace OpenAiCompat

/-! ## Buffered -/

structure RawToolCallFunction where
  name : String
  arguments : String

structure RawToolCall where
  id : String
  function : Option RawToolCallFunction

structure ResponseMessage where
  content : Option String
  tool_calls : List RawToolCall

structure Choice where
  message : ResponseMessage
  finish_reason : Option String

structure Response where
  choices : List Choice
  usage : Usage

def readFunction (v : Json) : Option RawToolCallFunction :=
  match structFields ["name", "arguments"] v with
  | some [name, arguments] => do
    return { name := ← defaultString name, arguments := ← defaultString arguments }
  | _ => none

def readToolCall (v : Json) : Option RawToolCall :=
  match structFields ["id", "function"] v with
  | some [id, none] | some [id, some .null] => do
    return { id := ← defaultString id, function := none }
  | some [id, some function] => do
    return { id := ← defaultString id, function := some (← readFunction function) }
  | _ => none

/-- `null_to_seq`: some providers send an explicit `null`. -/
def readToolCalls : Option Json → Option (List RawToolCall)
  | none | some .null => some []
  | some (.arr items) => items.mapM readToolCall
  | some _ => none

def readMessage (v : Json) : Option ResponseMessage :=
  match structFields ["content", "tool_calls"] v with
  | some [content, tool_calls] => do
    return { content := ← optionalString content, tool_calls := ← readToolCalls tool_calls }
  | _ => none

def readChoice (v : Json) : Option Choice :=
  match structFields ["message", "finish_reason"] v with
  | some [some message, finish_reason] => do
    return { message := ← readMessage message, finish_reason := ← optionalString finish_reason }
  | _ => none

def responseFields : List String := ["choices", "usage"]

def readResponse : List (Option Json) → Option Response
  | [some (.arr choices), none] => do
    return { choices := ← choices.mapM readChoice, usage := {} }
  | [some (.arr choices), some usage] => do
    return {
      choices := ← choices.mapM readChoice
      usage := ← readUsage "prompt_tokens" "completion_tokens" usage }
  | _ => none

def RawToolCall.toolCall (tc : RawToolCall) : Option ToolCall :=
  tc.function.map fun f => { id := tc.id, name := f.name, arguments_json := f.arguments }

def parseResponse (serde : Serde) (body : ByteArray) : Parsed ChatResult :=
  let malformed (e : String) : Parsed ChatResult :=
    .error (.error ("malformed openai-compatible response: " ++ e))
  match serde.readStruct responseFields body with
  | .error e => malformed e
  | .ok fields =>
    match readResponse fields with
    | none => malformed (serde.fieldError responseFields body)
    | some resp =>
      if resp.choices.any fun c => ¬ Fits c.message.tool_calls.length then .error .panic
      else
        match resp.choices with
        | [] => .error (.error "openai-compatible response has no choices")
        | choice :: _ =>
          .ok {
            content := choice.message.content.getD ""
            tool_calls := choice.message.tool_calls.filterMap RawToolCall.toolCall
            stop_reason := choice.finish_reason.getD ""
            usage := resp.usage }

end OpenAiCompat

/-! ## Streamed -/

/-- A tool call as it streams in. -/
structure ToolSlot where
  id : String := ""
  name : String := ""
  arguments : String := ""

structure OpenAiStream where
  content : String := ""
  tools : List ToolSlot := []
  started : Bool := false
  stop_reason : String := ""
  usage : Usage := {}

namespace OpenAiStream

/-- One item of `delta.tool_calls`. -/
def addToolCall (tools : List ToolSlot) (tc : Json) : Parsed (List ToolSlot) :=
  let idx := ((tc.get "index").bind Json.asU64).getD 0
  if tools.length ≤ idx ∧ ¬ Fits (idx + 1) then .error .panic
  else
    let tools := tools ++ List.replicate (idx + 1 - tools.length) ({} : ToolSlot)
    .ok (tools.modify idx fun slot => {
      id := (strOf tc "id").getD slot.id
      name := slot.name ++ (strAt tc "/function/name").getD ""
      arguments := slot.arguments ++ (strAt tc "/function/arguments").getD "" })

def items : Json → List Json
  | .arr items => items
  | _ => []

def readUsage (u : Json) : Usage where
  input_tokens := ((u.get "prompt_tokens").bind Json.asU64).getD 0
  output_tokens := ((u.get "completion_tokens").bind Json.asU64).getD 0

/-- The usage of a chunk that has one. -/
def usageOf (v : Json) : Option Usage :=
  match v.get "usage" with
  | none | some .null => none
  | some u => some (readUsage u)

def onChunk (s : OpenAiStream) (v : Json) : Parsed (OpenAiStream × List StreamDelta) :=
  match v.get "error" with
  | some err =>
    .error (.error ("provider stream error: " ++ (strOf err "message").getD "unknown error"))
  | none =>
    let s := { s with started := true, usage := (usageOf v).getD s.usage }
    match v.pointer "/choices/0".toList with
    | none => .ok (s, [])
    | some choice =>
      let delta := (choice.get "delta").getD .null
      let text := (strOf delta "content").getD ""
      match ((delta.get "tool_calls").map items |>.getD []).foldlM addToolCall s.tools with
      | .error e => .error e
      | .ok tools =>
        .ok ({ s with
            stop_reason := (strOf choice "finish_reason").getD s.stop_reason
            content := s.content ++ text
            tools },
          if text = "" then [] else [.text text])

def feed (serde : Serde) (s : OpenAiStream) (data : String) :
    Parsed (OpenAiStream × List StreamDelta) :=
  if Rust.trim data = "[DONE]" then .ok (s, [])
  else
    match serde.fromStr data with
    | .error e => .error (.error ("malformed openai-compatible stream chunk: " ++ e))
    | .ok v => s.onChunk v

def finish (s : OpenAiStream) : Parsed ChatResult :=
  if s.started then
    .ok {
      content := s.content
      tool_calls := (s.tools.filter fun t => t.name ≠ "").map fun t =>
        { id := t.id, name := t.name, arguments_json := t.arguments }
      stop_reason := s.stop_reason
      usage := s.usage }
  else .error (.error "openai-compatible stream ended without any chunk")

end OpenAiStream

end Ai
