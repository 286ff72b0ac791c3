import VynkorPlugins.Base.Json
import VynkorPlugins.Base.Rust
import VynkorPlugins.Base.Table

/-!
# Goals

The documents of the `agent` plugin (`store.rs`), the operator's catalog (`tools.rs`), what the engine
does to a document by itself (`engine.rs`), and the trace of its calls (`sessions.rs`).
-/

namespace Agent

structure Turn where
  role : String
  content : String

inductive StepKind where
  | tool_ok
  | tool_error
  | unknown_tool
  | halt_confirm
  | final
  | max_steps
  | error
  | declined
deriving DecidableEq

structure StepRec where
  n : Nat
  kind : StepKind
  detail : Json

inductive Status where
  | running
  | completed
  | needs_confirmation
  | declined
  | max_steps_reached
  | error
deriving DecidableEq

/-- The members that the engine reads. -/
structure GoalDoc where
  id : String
  goal : String
  context : String
  status : Status
  final_answer : String
  error : String
  steps : List StepRec
  transcript : List Turn
  pending_tool : String
  pending_params : Json
  native_tools_disabled : Bool
  max_steps : Nat
  updated_at_ms : Int64
  tool_counts : Table String Nat
  tool_last_ms : Table String Int64
  history_hint : String

def Status.text : Status → String
  | .running => "running"
  | .completed => "completed"
  | .needs_confirmation => "needs_confirmation"
  | .declined => "declined"
  | .max_steps_reached => "max_steps_reached"
  | .error => "error"

def Status.is_terminal : Status → Bool
  | .completed | .declined | .max_steps_reached | .error => true
  | .running | .needs_confirmation => false

structure ToolSpec where
  name : String
  description : String
  parameters : Json
  requires_confirmation : Bool
  timeout_ms : Nat
  cooldown_ms : UInt64
  max_per_goal : Nat

structure Catalog where
  tools : List ToolSpec
  allowed_actions : List String

def Catalog.get (catalog : Catalog) (name : String) : Option ToolSpec :=
  catalog.tools.find? fun t => t.name = name

theorem Catalog.name_of_get {catalog : Catalog} {name : String} {spec : ToolSpec}
    (h : catalog.get name = some spec) : spec.name = name := by
  simpa using List.find?_some h

/-! ## Texts -/

def OBSERVATION_MAX : Nat := 8192
def TRANSCRIPT_MAX_CHARS : Nat := 262144

def truncate_chars (s : String) (max : Nat) : String :=
  if s.length ≤ max then s
  else String.ofList (s.toList.take max) ++ "…[truncated]"

def is_retryable_device_error (err : String) : Bool :=
  Rust.contains err "unknown target" || Rust.contains err "not registered" ||
    Rust.contains err "timed out" || Rust.contains err "no live connection"

def is_device_target (name : String) : Bool :=
  "dev-".isPrefixOf name && Rust.contains name "."

/-- `format!` of an observation. -/
def tool_result (name status body : String) : String :=
  "[TOOL RESULT name=" ++ name ++ " status=" ++ status ++ "]\n" ++ body

/-! ## Steps of the document -/

namespace GoalDoc

variable (doc : GoalDoc)

/-- How many steps count for the budget. -/
def budgetSteps : Nat := (doc.steps.filter fun s => s.kind ≠ .final).length

def next_step (kind : StepKind) (detail : Json) : GoalDoc :=
  { doc with
    steps := doc.steps ++
      [{ n := ((doc.steps.map StepRec.n).max?.getD 0) + 1, kind, detail }] }

def push_turn (role content : String) : GoalDoc :=
  { doc with transcript := doc.transcript ++ [{ role, content }] }

def transcriptChars : Nat := (doc.transcript.map fun t => t.content.length).sum

/-- A call of the tool is counted. -/
def counted (name : String) (now_ms : Int64) : GoalDoc :=
  { doc with
    tool_counts := doc.tool_counts.insert name (doc.tool_counts[name]?.getD 0 + 1)
    tool_last_ms := doc.tool_last_ms.insert name now_ms }

variable {doc}

theorem budgetSteps_next_step {kind : StepKind} (h : kind ≠ .final) (detail : Json) :
    (doc.next_step kind detail).budgetSteps = doc.budgetSteps + 1 := by
  unfold budgetSteps next_step
  rw [List.filter_append, List.length_append]
  simp [h]

theorem le_budgetSteps_next_step (kind : StepKind) (detail : Json) :
    doc.budgetSteps ≤ (doc.next_step kind detail).budgetSteps := by
  unfold budgetSteps next_step
  rw [List.filter_append, List.length_append]
  exact Nat.le_add_right _ _

end GoalDoc

/-- `check_quota`, which reads the clock only for a tool with a cooldown that was called before. -/
def check_quota (doc : GoalDoc) (spec : ToolSpec) (now_ms : Int64) : Except String Unit :=
  let count := doc.tool_counts[spec.name]?.getD 0
  if 0 < spec.max_per_goal ∧ spec.max_per_goal ≤ count then
    .error ("tool '" ++ spec.name ++ "' quota exceeded: max " ++ toString spec.max_per_goal ++
      " calls per goal (used " ++ toString count ++ ")")
  else if 0 < spec.cooldown_ms then
    match doc.tool_last_ms[spec.name]? with
    | none => .ok ()
    | some last =>
      let elapsed := now_ms - last
      -- A cooldown of 2^63 and more is negative here.
      if elapsed < spec.cooldown_ms.toInt64 then
        .error ("tool '" ++ spec.name ++ "' is on cooldown: " ++
          toString (spec.cooldown_ms.toInt64 - elapsed) ++ "ms remaining (cooldown " ++
          toString spec.cooldown_ms ++ "ms)")
      else .ok ()
  else .ok ()

/-! ## Retention -/

structure PruneCandidate where
  id : String
  status : Status
  updated_at_ms : Int64

/-- The sort is stable. -/
def prune_ids_at (limit : Option Nat) (docs : List PruneCandidate) : List String :=
  match limit with
  | none => []
  | some limit =>
    if docs.length ≤ limit then []
    else
      ((docs.mergeSort fun a b => b.updated_at_ms ≤ a.updated_at_ms).drop limit
        |>.filter fun d => d.status.is_terminal).map PruneCandidate.id

/-! ## The trace

What is written down of a tool call for the devices of the user: secrets are masked first, then the texts
are cut.
-/

def TRACE_TEXT_MAX_CHARS : Nat := 200

/-- Cut to a number of characters, marking the cut. -/
def trace_text (s : String) : String :=
  if s.length ≤ TRACE_TEXT_MAX_CHARS then s
  else String.ofList (s.toList.take TRACE_TEXT_MAX_CHARS ++ ['…'])

def REDACTED : String := "[redacted]"

def SENSITIVE_TOOL_WORDS : List String := ["secret", "password", "token", "credential"]

def SENSITIVE_KEY_WORDS : List String :=
  ["value", "password", "passwd", "token", "secret", "api_key", "apikey", "authorization", "auth",
    "cookie", "private_key"]

/-- `str::to_lowercase`, `serde_json::from_str`, and `scrub_text`, which goes by regular expressions. -/
structure TraceCrates where
  to_lowercase : String → String
  from_str : String → Option Json
  scrub_text : String → String

section

variable (crates : TraceCrates)

/-- The name of a tool after the last dot, in lower case. -/
def base_name (tool : String) : String :=
  crates.to_lowercase (String.ofList (tool.toList.rtakeWhile (· ≠ '.')))

def is_sensitive_tool (tool : String) : Bool :=
  SENSITIVE_TOOL_WORDS.any fun w => Rust.contains (base_name crates tool) w

def is_sensitive_key (key : String) : Bool :=
  SENSITIVE_KEY_WORDS.any fun w => Rust.contains (crates.to_lowercase key) w

mutual

/-- Recursively replace the value of every sensitive key with `[redacted]`. -/
def mask_keys : Json → Json
  | .obj map => .obj (maskFields map)
  | .arr items => .arr (maskItems items)
  | other => other

def maskItems : List Json → List Json
  | [] => []
  | v :: vs => mask_keys v :: maskItems vs

def maskFields : List (String × Json) → List (String × Json)
  | [] => []
  | (k, v) :: fs =>
    (k, if is_sensitive_key crates k then .str REDACTED else mask_keys v) :: maskFields fs

end

/-- Text that is no JSON is returned as is. -/
def mask_json_text (text : String) : String :=
  match crates.from_str text with
  | some v => (mask_keys crates v).print
  | none => text

/-- Tools whose output is file or shell content. -/
def is_omit_tool (tool : String) : Bool :=
  ["fs_", "exec", "shell"].any fun p => p.toList.isPrefixOf (base_name crates tool).toList

/-- The keys of the arguments, with no value. -/
def keys_only : Json → Json
  | .obj map => .obj (map.map fun f => (f.1, .str REDACTED))
  | .null => .null
  | _ => .str REDACTED

def redact_args (tool : String) (args : Json) : String :=
  if is_sensitive_tool crates tool then (keys_only args).print
  else crates.scrub_text (mask_keys crates args).print

def redact_result (tool result : String) : String :=
  if is_sensitive_tool crates tool then REDACTED
  else if is_omit_tool crates tool then "[omitted]"
  else crates.scrub_text (mask_json_text crates result)

/-- The same masking as of results. -/
def redact_error (tool err : String) : String :=
  redact_result crates tool err

structure TraceRec where
  tool : String
  args : String
  result : String
  error : Option String
  ms : Nat
deriving DecidableEq

/-- A call that ran, or failed, after `ms` milliseconds. -/
def TraceRec.new (tool : String) (args : Json) (outcome : Except String String) (ms : Nat) : TraceRec :=
  match outcome with
  | .ok body =>
    { tool, args := trace_text (redact_args crates tool args)
      result := trace_text (redact_result crates tool body), error := none, ms }
  | .error e =>
    { tool, args := trace_text (redact_args crates tool args), result := ""
      error := some (trace_text (redact_error crates tool e)), ms }

/-! What a trace is not to tell apart. -/

mutual

/-- Two values that differ under sensitive keys only. -/
inductive Alike : Json → Json → Prop
  | null : Alike .null .null
  | bool (b : Bool) : Alike (.bool b) (.bool b)
  | int (n : Int) : Alike (.int n) (.int n)
  | float (x : Json.FloatLit) : Alike (.float x) (.float x)
  | str (s : String) : Alike (.str s) (.str s)
  | arr {vs vs' : List Json} (h : AlikeItems vs vs') : Alike (.arr vs) (.arr vs')
  | obj {fs fs' : List (String × Json)} (h : AlikeFields fs fs') : Alike (.obj fs) (.obj fs')

inductive AlikeItems : List Json → List Json → Prop
  | nil : AlikeItems [] []
  | cons {v v' : Json} {vs vs' : List Json} (h : Alike v v') (hs : AlikeItems vs vs') :
    AlikeItems (v :: vs) (v' :: vs')

inductive AlikeFields : List (String × Json) → List (String × Json) → Prop
  | nil : AlikeFields [] []
  | secret {k : String} (v v' : Json) {fs fs' : List (String × Json)}
    (h : is_sensitive_key crates k = true) (hs : AlikeFields fs fs') :
    AlikeFields ((k, v) :: fs) ((k, v') :: fs')
  | plain (k : String) {v v' : Json} {fs fs' : List (String × Json)} (h : Alike v v')
    (hs : AlikeFields fs fs') : AlikeFields ((k, v) :: fs) ((k, v') :: fs')

end

/-- Two values of which a sensitive tool tells the same: their keys. -/
inductive SameOutline : Json → Json → Prop
  | obj {fs fs' : List (String × Json)} (h : fs.map Prod.fst = fs'.map Prod.fst) :
    SameOutline (.obj fs) (.obj fs')
  | null : SameOutline .null .null
  | other {v v' : Json} (hv : v ≠ .null ∧ ∀ fs, v ≠ .obj fs)
    (hv' : v' ≠ .null ∧ ∀ fs, v' ≠ .obj fs) : SameOutline v v'

/-- Two texts of a tool that are not told apart: any, if the tool is sensitive or its output is left
    out. -/
inductive AlikeText (tool : String) : String → String → Prop
  | same (s : String) : AlikeText tool s s
  | hidden (s s' : String) (h : is_sensitive_tool crates tool = true ∨ is_omit_tool crates tool = true) :
    AlikeText tool s s'
  | json {s s' : String} {v v' : Json} (hs : crates.from_str s = some v)
    (hs' : crates.from_str s' = some v') (h : Alike crates v v') : AlikeText tool s s'

inductive AlikeOutcome (tool : String) : Except String String → Except String String → Prop
  | ok {s s' : String} (h : AlikeText crates tool s s') : AlikeOutcome tool (.ok s) (.ok s')
  | error {s s' : String} (h : AlikeText crates tool s s') : AlikeOutcome tool (.error s) (.error s')

end

end Agent
