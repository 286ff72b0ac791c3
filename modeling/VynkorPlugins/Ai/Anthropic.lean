import VynkorPlugins.Ai.Provider

/-!
# The Messages API adapter

How a response of the Messages API is parsed, as a whole and as a stream (`provider/anthropic.rs`).
-/

namespace Ai

namespace Anthropic

/-! ## Buffered -/

structure Response where
  content : List Json
  stop_reason : Option String
  usage : Usage

def readResponse : List (Option Json) → Option Response
  | [some (.arr content), stop_reason, some usage] => do
    return {
      content
      stop_reason := ← optionalString stop_reason
      usage := ← readUsage "input_tokens" "output_tokens" usage }
  | _ => none

def responseFields : List String := ["content", "stop_reason", "usage"]

/-- The text of a content block. -/
def textOf (block : Json) : Option String :=
  if strOf block "type" = some "text" then strOf block "text" else none

/-- The tool call of a content block. -/
def toolOf (block : Json) : Option ToolCall :=
  if strOf block "type" = some "tool_use" then
    some {
      id := (strOf block "id").getD ""
      name := (strOf block "name").getD ""
      arguments_json := ((block.get "input").getD (.obj [])).print }
  else none

/-- `texts.join("\n")`. -/
def joinLines (texts : List String) : String :=
  "\n".intercalate texts

def parseResponse (serde : Serde) (body : ByteArray) : Parsed ChatResult :=
  let malformed (e : String) : Parsed ChatResult :=
    .error (.error ("malformed anthropic response: " ++ e))
  match serde.readStruct responseFields body with
  | .error e => malformed e
  | .ok fields =>
    match readResponse fields with
    | none => malformed (serde.fieldError responseFields body)
    | some resp =>
      if resp.content = [] then
        .error (.error "anthropic response has no content blocks")
      else
        let texts := resp.content.filterMap textOf
        let tool_calls := resp.content.filterMap toolOf
        if texts = [] ∧ tool_calls.isEmpty then
          .error (.error "anthropic response has no usable content blocks")
        else
          .ok {
            content := joinLines texts
            tool_calls
            stop_reason := resp.stop_reason.getD ""
            usage := resp.usage }

end Anthropic

/-! ## Streamed -/

/-- One content block as it streams in. -/
inductive Block where
  | text (s : String)
  | tool (id name json : String)

def Block.isText : Block → Bool
  | .text _ => true
  | .tool .. => false

structure AnthropicStream where
  blocks : List Block := []
  started : Bool := false
  stop_reason : String := ""
  input_tokens : Nat := 0
  output_tokens : Nat := 0

namespace AnthropicStream

/-- `content_block_start`. -/
def startBlock (s : AnthropicStream) (block : Json) : AnthropicStream × List StreamDelta :=
  match strOf block "type" with
  | some "text" =>
    let separator : List StreamDelta := if s.blocks.any Block.isText then [.text "\n"] else []
    let text := (strOf block "text").getD ""
    ({ s with blocks := s.blocks ++ [.text text] },
      separator ++ if text = "" then [] else [.text text])
  | some "tool_use" =>
    ({ s with blocks :=
        s.blocks ++ [.tool ((strOf block "id").getD "") ((strOf block "name").getD "") ""] }, [])
  | _ => (s, [])

/-- `content_block_delta`: it goes to the last block there is. -/
def addDelta (s : AnthropicStream) (v : Json) : AnthropicStream × List StreamDelta :=
  match strAt v "/delta/type", s.blocks.getLast? with
  | some "text_delta", some (.text acc) =>
    let text := (strAt v "/delta/text").getD ""
    ({ s with blocks := s.blocks.dropLast ++ [.text (acc ++ text)] }, [.text text])
  | some "input_json_delta", some (.tool id name json) =>
    let part := (strAt v "/delta/partial_json").getD ""
    ({ s with blocks := s.blocks.dropLast ++ [.tool id name (json ++ part)] }, [])
  | _, _ => (s, [])

def onEvent (s : AnthropicStream) (v : Json) : Parsed (AnthropicStream × List StreamDelta) :=
  match (strOf v "type").getD "" with
  | "message_start" =>
    .ok ({ s with
      started := true
      input_tokens := (u64At v "/message/usage/input_tokens").getD 0
      output_tokens := (u64At v "/message/usage/output_tokens").getD 0 }, [])
  | "content_block_start" => .ok (s.startBlock ((v.get "content_block").getD .null))
  | "content_block_delta" => .ok (s.addDelta v)
  | "message_delta" =>
    .ok ({ s with
      stop_reason := (strAt v "/delta/stop_reason").getD s.stop_reason
      output_tokens := (u64At v "/usage/output_tokens").getD s.output_tokens }, [])
  | "error" =>
    .error (.error ("anthropic stream error: " ++ (strAt v "/error/message").getD "unknown error"))
  | _ => .ok (s, [])

def feed (serde : Serde) (s : AnthropicStream) (data : String) :
    Parsed (AnthropicStream × List StreamDelta) :=
  match serde.fromStr data with
  | .error e => .error (.error ("malformed anthropic stream event: " ++ e))
  | .ok v => s.onEvent v

/-- The same compact form the buffered path gets from `input`. -/
def argumentsJson (serde : Serde) (json : String) : String :=
  if Rust.trim json = "" then "{}"
  else
    match serde.fromStr json with
    | .ok v => v.print
    | .error _ => json

def textOf : Block → Option String
  | .text s => some s
  | .tool .. => none

def toolOf (serde : Serde) : Block → Option ToolCall
  | .text _ => none
  | .tool id name json => some { id, name, arguments_json := argumentsJson serde json }

def finish (serde : Serde) (s : AnthropicStream) : Parsed ChatResult :=
  if s.started then
    .ok {
      content := Anthropic.joinLines (s.blocks.filterMap textOf)
      tool_calls := s.blocks.filterMap (toolOf serde)
      stop_reason := s.stop_reason
      usage := { input_tokens := s.input_tokens, output_tokens := s.output_tokens } }
  else .error (.error "anthropic stream ended before message_start")

end AnthropicStream

end Ai
