import VynkorPlugins.Agent.Model
import VynkorPlugins.Base.Async
import VynkorPlugins.Base.Stateful

/-!
# The goal loop

The tasks of the `agent` plugin: a goal is run from its start or from an approved confirmation to a terminal
or halting state (`engine.rs`), on behalf of the requests of the kernel (`lib.rs`).
-/

namespace Agent

structure NativeToolCall where
  name : String
  arguments_json : String

structure ChatOutcome where
  content : String
  tool_calls : List NativeToolCall

/-- The model's reply after parsing. -/
inductive Reply where
  | Final (answer : String)
  | ToolCall (name : String) (params : Json)

/-- The functions of `llm.rs`, whatever they make of a goal. -/
structure Llm where
  opening_messages_with_full : (goal context : String) → (filtered full : Catalog) → Bool → List Turn
  filtered_catalog : Catalog → (goal context : String) → Catalog
  want_native_tools : Catalog → Bool → Bool
  catalog_tools_param : Catalog → List Json
  degraded_tool_catalog_block : Catalog → String
  outcome_to_reply : ChatOutcome → Reply

structure Config where
  embedding_filter : Bool
  memory_enabled : Bool
  /-- `AGENT_PLUGIN_MAX_STEPS`, between 1 and the cap. -/
  default_max_steps : Nat
  retention_limit : Option Nat

/-! ## What a task awaits -/

/-- The function that writes a document. -/
inductive Writer where
  | engine
  | run_and_record
  | resume_goal
deriving DecidableEq

/-- The function that reads a document. -/
inductive Reader where
  | resume_goal (approve : Bool)
  | delete
deriving DecidableEq

/-- The answers to the kernel, before they are encoded. -/
inductive Response where
  | goal (doc : GoalDoc)
  | deleted (deleted : Bool)

inductive Eff where
  | now
  | load_catalog
  | db_incr
  | db_get (reader : Reader) (id : String)
  | db_set (writer : Writer) (doc : GoalDoc)
  | db_delete (id : String)
  | db_keys
  | db_batch_get (keys : List String)
  | sessions
  | vec_query (goal : String)
  | recall (goal : String)
  | chat (transcript : List Turn) (tools : List Json)
  | rpc_call (goal_id : String) (retry : Bool) (name : String) (params : Json) (timeout_ms : Nat)
  | sleep (ms : Nat)
  | reply (result : Except String Response)
  | panic
  | hang

/-- The calls to other plugins come back with an error where they fail. A task that panics or loops does
    not go on. -/
@[reducible] def Eff.Answer : Eff → Type
  | .now => Int64
  | .load_catalog => Except String Catalog
  | .db_incr => Except String Nat
  | .db_get .. => Except String (Option GoalDoc)
  | .db_set .. => Except String Unit
  | .db_delete _ => Except String Bool
  | .db_keys => Except String (List String)
  | .db_batch_get _ => Except String (List (Option GoalDoc))
  | .sessions => List (String × String)
  | .vec_query _ => Option (List String)
  | .recall _ => Option String
  | .chat .. => Except String ChatOutcome
  | .rpc_call .. => Except String Json
  | .sleep _ => Unit
  | .reply _ => Unit
  | .panic => Empty
  | .hang => Empty

abbrev Act (α : Type) := Async Eff Eff.Answer α

abbrev Engine (α : Type) := Stateful GoalDoc Eff Eff.Answer α

def await (e : Eff) : Act e.Answer := Async.perform e

open Stateful (await)

/-! ## The engine -/

def push_turn (role content : String) : Engine Unit := do
  modify fun doc => doc.push_turn role content
  let doc ← get
  if TRANSCRIPT_MAX_CHARS < doc.transcriptChars then
    throw ("transcript budget exceeded (" ++ toString doc.transcriptChars ++ " > " ++
      toString TRANSCRIPT_MAX_CHARS ++ " chars); start a new goal with narrower scope")
  else pure ()

def next_step (kind : StepKind) (detail : Json) : Engine Unit :=
  modify fun doc => doc.next_step kind detail

def persist : Engine Unit := do
  let now ← await .now
  modify fun doc => { doc with updated_at_ms := now }
  let doc ← get
  match ← await (.db_set .engine doc) with
  | .error e => throw e
  | .ok () => pure ()

/-- The tools whose embeddings are near the goal, if there are enough of them. -/
def embedding_filtered (catalog : Catalog) (hits : List String) : Option Catalog :=
  if hits.length < 3 then none
  else
    let filtered := catalog.tools.filter fun t => t.name ∈ hits
    if filtered.length < 3 then none else some { catalog with tools := filtered }

/-- The catalog that the model is shown. The log line cuts the goal at a byte, which panics within a
    character. -/
def effective_catalog (llm : Llm) (config : Config) (catalog : Catalog) (hint : String) :
    Engine Catalog := do
  let doc ← get
  let hits ← if config.embedding_filter ∧ Rust.trim doc.goal ≠ "" then await (.vec_query doc.goal)
    else pure none
  match hits.bind (embedding_filtered catalog) with
  | none => pure (llm.filtered_catalog catalog doc.goal hint)
  | some emb =>
    match Rust.truncate doc.goal 60 with
    | none => do
      let stopped ← await .panic
      nomatch stopped
    | some _ => pure emb

def history_text (history : List (String × String)) : String :=
  " ".intercalate (history.map fun (q, a) => q ++ " " ++ a)

def catalog_hint (doc : GoalDoc) : String :=
  if doc.history_hint = "" then doc.context else doc.history_hint

/-- The first question goes into the role message, and the rest between it and the goal. -/
def weave_history : List Turn → List (String × String) → List Turn
  | first :: rest, (q, a) :: more =>
    { first with content := first.content ++ "\n\n---\n[EARLIER IN THIS CONVERSATION]\n" ++ q } ::
      { role := "assistant", content := a } ::
      (more.flatMap fun (q, a) => [{ role := "user", content := q }, { role := "assistant", content := a }])
        ++ rest
  | transcript, _ => transcript

/-- A device that is not there is asked once more. -/
def dispatch_and_observe (timeout_ms : Nat) (name : String) (params : Json) : Engine Unit := do
  let doc ← get
  let outcome ← await (.rpc_call doc.id false name params timeout_ms)
  let outcome ← match outcome with
    | .ok v => pure (.ok v)
    | .error err =>
      if is_device_target name ∧ is_retryable_device_error err then do
        let _ ← await (.sleep 500)
        await (.rpc_call doc.id true name params timeout_ms)
      else pure (.error err)
  match outcome with
  | .ok v => do
    push_turn "user" (truncate_chars (tool_result name "ok" v.print) OBSERVATION_MAX)
    next_step .tool_ok (.obj [("params", params), ("tool", .str name)])
  | .error e => do
    push_turn "user" (truncate_chars (tool_result name "error" e) OBSERVATION_MAX)
    next_step .tool_error (.obj [("params", params), ("tool", .str name)])

/-- A call that is refused for its quota. -/
def refuse_call (name e : String) : Engine Unit := do
  push_turn "user" (tool_result name "error" e)
  next_step .tool_error (.obj [("error", .str e), ("tool", .str name)])
  persist

/-- A call of a tool is counted before it is sent. -/
def dispatch_counted (spec : ToolSpec) (name : String) (params : Json) : Engine Unit := do
  let now ← await .now
  modify fun doc => doc.counted name now
  dispatch_and_observe spec.timeout_ms name params
  persist

/-- The seed of a fresh goal. -/
def open_goal (llm : Llm) (config : Config) (llm_catalog dispatch_catalog : Catalog)
    (history : List (String × String)) : Engine Unit := do
  modify fun doc =>
    let native_seed := llm.want_native_tools llm_catalog doc.native_tools_disabled
    let context := if history = [] then doc.context else ""
    let opening := llm.opening_messages_with_full doc.goal context llm_catalog dispatch_catalog native_seed
    { doc with status := .running, transcript := weave_history opening history }
  let doc ← get
  let block ← if config.memory_enabled then await (.recall doc.goal) else pure none
  match block with
  | none => persist
  | some block => do
    push_turn "user" block
    persist

/-- The call that was confirmed. The goal goes on unless its quota refuses the call. -/
def approved_resume (catalog : Catalog) : Engine Bool := do
  let doc ← get
  let name := doc.pending_tool
  let params := doc.pending_params
  modify fun doc => { doc with status := .running, pending_tool := "", pending_params := .null }
  match catalog.get name with
  | none => do
    dispatch_and_observe 30000 name params
    persist
    pure true
  | some spec => do
    let now ← await .now
    let doc ← get
    match check_quota doc spec now with
    | .error e => do
      refuse_call name e
      pure false
    | .ok () => do
      dispatch_counted spec name params
      pure true

/-- The model has failed. -/
def fail_goal (e : String) : Engine Unit := do
  modify fun doc => { doc with status := .error, error := e }
  next_step .error (.obj [("error", .str e)])
  persist

/-- The model's answer, if the goal goes on with one. -/
def ask_model (llm : Llm) (llm_catalog : Catalog) : Engine (Option ChatOutcome) := do
  let doc ← get
  let want_native := llm.want_native_tools llm_catalog doc.native_tools_disabled
  let tools := if want_native then llm.catalog_tools_param llm_catalog else []
  match ← await (.chat doc.transcript tools) with
  | .ok outcome => pure (some outcome)
  | .error e =>
    if want_native then do
      modify fun doc => { doc with native_tools_disabled := true }
      push_turn "user" (llm.degraded_tool_catalog_block llm_catalog)
      let doc ← get
      match ← await (.chat doc.transcript []) with
      | .ok outcome => pure (some outcome)
      | .error e2 => do
        fail_goal e2
        pure none
    else do
      fail_goal e
      pure none

/-- The tool call of a reply. The goal goes on unless it awaits a confirmation. -/
def tool_call (catalog : Catalog) (name : String) (params : Json) : Engine Bool := do
  match catalog.get name with
  | none => do
    push_turn "user" (tool_result name "error"
      ("unknown tool \"" ++ name ++ "\": not in the operator's tool catalog"))
    next_step .unknown_tool (.obj [("tool", .str name)])
    persist
    pure true
  | some spec =>
    if spec.requires_confirmation then do
      modify fun doc => { doc with status := .needs_confirmation, pending_tool := name, pending_params := params }
      next_step .halt_confirm (.obj [("params", params), ("tool", .str name)])
      persist
      pure false
    else do
      let now ← await .now
      let doc ← get
      match check_quota doc spec now with
      | .error e => do
        refuse_call name e
        pure true
      | .ok () => do
        dispatch_counted spec name params
        pure true

def finish_goal (answer : String) : Engine Unit := do
  modify fun doc => { doc with status := .completed, final_answer := answer }
  next_step .final (.obj [])
  persist

/-- The body of the loop. The goal goes on unless it has ended or halted. -/
def turn (llm : Llm) (llm_catalog catalog : Catalog) : Engine Bool := do
  let doc ← get
  if doc.max_steps ≤ doc.budgetSteps then do
    modify fun doc => { doc with status := .max_steps_reached }
    next_step .max_steps (.obj [("max_steps", .int doc.max_steps)])
    persist
    pure false
  else do
    match ← ask_model llm llm_catalog with
    | none => pure false
    | some outcome => do
      push_turn "assistant" outcome.content
      match llm.outcome_to_reply outcome with
      | .Final answer => do
        finish_goal answer
        pure false
      | .ToolCall name params => tool_call catalog name params

def loop (llm : Llm) (llm_catalog catalog : Catalog) : Nat → Engine Unit
  | 0 => do
    let stopped ← await .hang
    nomatch stopped
  | fuel + 1 => do
    match ← turn llm llm_catalog catalog with
    | false => pure ()
    | true => loop llm llm_catalog catalog fuel

inductive Entry where
  | Fresh (history : List (String × String))
  | ApprovedResume

/-- Each turn that goes on takes a step of the budget. -/
def run_loop (llm : Llm) (llm_catalog catalog : Catalog) : Engine Unit := do
  let doc ← get
  loop llm llm_catalog catalog (doc.max_steps + 1)

def run (llm : Llm) (config : Config) (catalog : Catalog) : Entry → Engine Unit
  | .Fresh history => do
    modify fun doc => { doc with history_hint := history_text history }
    let doc ← get
    let llm_catalog ← effective_catalog llm config catalog (catalog_hint doc)
    open_goal llm config llm_catalog catalog history
    run_loop llm llm_catalog catalog
  | .ApprovedResume => do
    let doc ← get
    let llm_catalog ← effective_catalog llm config catalog (catalog_hint doc)
    match ← approved_resume catalog with
    | false => pure ()
    | true => run_loop llm llm_catalog catalog

/-! ## Requests -/

/-- A goal whose engine fails is still ended, as far as the database takes it. -/
def run_and_record (llm : Llm) (config : Config) (catalog : Catalog) (entry : Entry) (doc : GoalDoc) :
    Act (Except String GoalDoc) := do
  let (result, doc) ← (run llm config catalog entry).exec doc
  match result with
  | .ok () => return .ok doc
  | .error e =>
    let now ← Agent.await .now
    let ended := { doc with status := .error, error := e }.next_step .error (.obj [("error", .str e)])
    let _ ← Agent.await (.db_set .run_and_record { ended with updated_at_ms := now })
    return .error e

structure StartParams where
  goal : String
  context : String
  /-- Zero stands for the operator's default. -/
  max_steps : Nat

def StartParams.document (config : Config) (params : StartParams) (id : String) (now : Int64) :
    GoalDoc where
  id
  goal := params.goal
  context := params.context
  status := .running
  final_answer := ""
  error := ""
  steps := []
  transcript := []
  pending_tool := ""
  pending_params := .null
  native_tools_disabled := false
  max_steps := if params.max_steps = 0 then config.default_max_steps else params.max_steps
  updated_at_ms := now
  tool_counts := ∅
  tool_last_ms := ∅
  history_hint := ""

/-- What pruning reads of the fetched documents. A key that is gone meanwhile is an error. -/
def summaries : List (Option GoalDoc) → Except String (List PruneCandidate)
  | [] => .ok []
  | none :: _ => .error "stored goal is corrupt"
  | some doc :: docs => do
    let rest ← summaries docs
    return { id := doc.id, status := doc.status, updated_at_ms := doc.updated_at_ms } :: rest

def fetch_summaries : List (List String) → Act (Except String (List PruneCandidate))
  | [] => return .ok []
  | chunk :: chunks => do
    match ← Agent.await (.db_batch_get chunk) with
    | .error e => return .error e
    | .ok docs =>
      match summaries docs with
      | .error e => return .error e
      | .ok fetched =>
        match ← fetch_summaries chunks with
        | .error e => return .error e
        | .ok rest => return .ok (fetched ++ rest)

def delete_all : List String → Act (Except String Unit)
  | [] => return .ok ()
  | id :: ids => do
    match ← Agent.await (.db_delete id) with
    | .error e => return .error e
    | .ok _ => delete_all ids

def BATCH_CHUNK : Nat := 20

/-- The keys, newest first. -/
def sorted_keys (keys : List String) : List String :=
  keys.mergeSort fun a b => (b.toNat?.getD 0) ≤ (a.toNat?.getD 0)

def prune : Option Nat → Act (Except String Unit)
  | none => return .ok ()
  | some limit => do
    match ← Agent.await .db_keys with
    | .error e => return .error e
    | .ok keys =>
      if keys.length ≤ limit then return .ok ()
      else
        match ← fetch_summaries ((sorted_keys keys).toChunks BATCH_CHUNK) with
        | .error e => return .error e
        | .ok candidates => delete_all (prune_ids_at (some limit) candidates)

def start_goal (llm : Llm) (config : Config) (params : StartParams) : Act (Except String GoalDoc) := do
  match ← Agent.await .load_catalog with
  | .error e => return .error e
  | .ok catalog =>
    match ← Agent.await .db_incr with
    | .error e => return .error e
    | .ok id =>
      let now ← Agent.await .now
      let history ← Agent.await .sessions
      let doc := params.document config (toString id) now
      match ← run_and_record llm config catalog (.Fresh history) doc with
      | .error e => return .error e
      | .ok doc =>
        let _ ← prune config.retention_limit
        return .ok doc

/-- The document of a goal whose confirmation was declined. -/
def GoalDoc.decline (doc : GoalDoc) : GoalDoc :=
  { doc with
    status := .declined
    pending_tool := ""
    pending_params := .null
    final_answer := "Operator declined the proposed call of \"" ++ doc.pending_tool ++ "\"." }.next_step
    .declined (.obj [("tool", .str doc.pending_tool)])

def resume_goal (llm : Llm) (config : Config) (id : String) (approve : Bool) :
    Act (Except String GoalDoc) := do
  match ← Agent.await (.db_get (.resume_goal approve) id) with
  | .error e => return .error e
  | .ok none => return .error ("goal not found: " ++ id)
  | .ok (some doc) =>
    if doc.status ≠ .needs_confirmation then
      return .error ("goal \"" ++ id ++ "\" is not awaiting confirmation (status: " ++ doc.status.text ++ ")")
    else if approve then
      match ← Agent.await .load_catalog with
      | .error e => return .error e
      | .ok catalog => run_and_record llm config catalog .ApprovedResume doc
    else
      let now ← Agent.await .now
      let declined := { doc.decline with updated_at_ms := now }
      match ← Agent.await (.db_set .resume_goal declined) with
      | .error e => return .error e
      | .ok () => return .ok declined

/-- `goal_delete` -/
def goal_delete (id : String) : Act (Except String Bool) := do
  match ← Agent.await (.db_get .delete id) with
  | .error e => return .error e
  | .ok none => return .ok false
  | .ok (some _) =>
    match ← Agent.await (.db_delete id) with
    | .error e => return .error e
    | .ok _ => return .ok true

/-! ## Tasks -/

/-- What the serve loop spawns a task for. -/
inductive Spawn where
  | goal_start (params : StartParams)
  | goal_resume (id : String) (approve : Bool)
  | goal_delete (id : String)

def Spawn.task (llm : Llm) (config : Config) : Spawn → Act Unit
  | .goal_start params => do
    let result ← start_goal llm config params
    Agent.await (.reply (result.map .goal))
  | .goal_resume id approve => do
    let result ← resume_goal llm config id approve
    Agent.await (.reply (result.map .goal))
  | .goal_delete id => do
    let result ← Agent.goal_delete id
    Agent.await (.reply (result.map .deleted))

end Agent

/-!
## The agent and what it calls

Any number of requests over one store of goals. The models, the tools and the catalog may answer anything at
any time; the clock and the fate of the database calls change by themselves.
-/

namespace Agent

open Async

/-- The documents are stored under their ids. -/
structure World where
  docs : Table String GoalDoc
  keyed : ∀ (id : String) (doc : GoalDoc), docs[id]? = some doc → doc.id = id
  next_id : Nat
  clock : Int64
  fate : Fate

/-- What the other plugins answer to a call. -/
structure Outside where
  catalog : Except String Catalog
  history : List (String × String)
  hits : Option (List String)
  recalled : Option String
  chat : Except String ChatOutcome
  tool : Except String Json

namespace World

variable (w : World)

def put (doc : GoalDoc) : World :=
  { w with
    docs := w.docs.insert doc.id doc
    keyed := by
      intro id doc' h
      rw [Table.getElem?_insert_ite] at h
      split_ifs at h with hid
      · obtain rfl := Option.some.inj h
        exact hid
      · exact w.keyed id doc' h }

def delete (id : String) : World :=
  { w with
    docs := w.docs.erase id
    keyed := by
      intro id' doc h
      rw [Table.getElem?_erase_ite] at h
      split_ifs at h
      exact w.keyed id' doc h }

/-- The world as it will be for the next call. -/
def turn (clock : Int64) (fate : Fate) : World := { w with clock, fate }

/-- What a task is answered, and what becomes of the world. -/
def serve (o : Outside) : (e : Eff) → World → Option (e.Answer × World)
  | .now, w => some (w.clock, w)
  | .load_catalog, w => some (o.catalog, w)
  | .db_incr, w =>
    some (w.fate.answer (w.next_id + 1), w.fate.write w { w with next_id := w.next_id + 1 })
  | .db_get _ id, w => some (w.fate.answer w.docs[id]?, w)
  | .db_set _ doc, w => some (w.fate.answer (), w.fate.write w (w.put doc))
  | .db_delete id, w => some (w.fate.answer (w.docs.contains id), w.fate.write w (w.delete id))
  | .db_keys, w => some (w.fate.answer w.docs.keys, w)
  | .db_batch_get keys, w => some (w.fate.answer (keys.map fun id => w.docs[id]?), w)
  | .sessions, w => some (o.history, w)
  | .vec_query _, w => some (o.hits, w)
  | .recall _, w => some (o.recalled, w)
  | .chat .., w => some (o.chat, w)
  | .rpc_call .., w => some (o.tool, w)
  | .sleep _, w => some ((), w)
  | .reply _, w => some ((), w)
  | .panic, _ => none
  | .hang, _ => none

end World

variable {w : World}

theorem World.getElem?_put (w : World) (doc : GoalDoc) (id : String) :
    (w.put doc).docs[id]? = if doc.id = id then some doc else w.docs[id]? :=
  Table.getElem?_insert_ite w.docs doc.id id doc

theorem World.getElem?_delete (w : World) (id' id : String) :
    (w.delete id').docs[id]? = if id' = id then none else w.docs[id]? :=
  Table.getElem?_erase_ite w.docs id' id

/-- A task is answered by the world as it is, and anything by the others. -/
def Handle (_i : Nat) (w : World) (e : Eff) (r : e.Answer) (w' : World) : Prop :=
  ∃ o, w.serve o e = some (r, w')

/-- Any clock, and any fate of the calls. -/
def Tick (w : World) (l : Int64 × Fate) (w' : World) : Prop := w' = w.turn l.1 l.2

abbrev Tasks := Pool Nat Eff Eff.Answer Unit World

abbrev TaskLabel := PoolLabel Nat Eff Eff.Answer (Int64 × Fate)

abbrev TaskStep : Tasks → TaskLabel → Tasks → Prop := PoolStep Handle Tick

/-- No task has begun. -/
def Tasks.start (llm : Llm) (config : Config) (spawn : Nat → Spawn) (world : World) : Tasks where
  tasks i := (spawn i).task llm config
  world := world

/-- No goal is stored. -/
def World.empty : World where
  docs := ∅
  keyed id doc h := by simp at h
  next_id := 0
  clock := 0
  fate := .ok

/-- A task moves, or the clock and the fate of the calls change. -/
inductive TaskRequest where
  | act (i : Nat) (o : Outside)
  | turn (clock : Int64) (fate : Fate)

end Agent
