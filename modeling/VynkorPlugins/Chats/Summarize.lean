import VynkorPlugins.Chats.Worker

/-!
# The summaries of the work lane

`Worker::summarize_pass`, run again and again by the work lane of a process, while other tasks call
the store. A pass awaits the database and the `ai` plugin for each session. The embedding pass that
follows each pass changes none of the columns that a pass reads or writes and is left out.
-/

namespace Chats

open Rust Transition

structure SummaryConfig where
  summary_idle_secs : Int := 900
  summary_max_tokens : Nat := 400
  ai_agent_id : Option String := none
  /-- `serde_json::from_str` -/
  fromStr : String → Option Json
  /-- `str::to_lowercase` -/
  toLowercase : String → String

def prompt : String :=
  "Summarize this conversation for later search. Reply with JSON only: \x7b\"title\": \"<= 8 words\", \"summary\": \"<= 3 sentences\", \"tags\": [\"<= 5 short lowercase tags\"]\x7d. Write in the language of the conversation."

/-- A session whose summary call failed is not retried for this long. -/
def sessionRetryMs : Int := 5 * 60 * 1000

/-! ## What the lane awaits -/

inductive SummaryAwait where
  | candidates (idle_before : Int) (skip : List String)
  | chatCompletion (params : Json)
  | apply (id : String) (seen_rev : Int) (result : Option Summary)

@[reducible] def SummaryAwait.Answer : SummaryAwait → Type
  | .candidates .. => Except String (List Candidate)
  | .chatCompletion _ => Except String Json
  | .apply .. => Except String Bool

abbrev SummaryLane (α : Type) := Async SummaryAwait SummaryAwait.Answer α

/-- How the world answers: the database by its functions, any statement of which it may refuse; the
    `ai` plugin as it likes. -/
def Summarized (s : Store) : (e : SummaryAwait) → e.Answer → Store → Prop
  | .candidates idle_before skip, r, s' =>
    s' = s ∧ (r = .ok (candidates s idle_before skip) ∨ ∃ e, r = .error e)
  | .chatCompletion _, _, s' => s' = s
  | .apply id seen_rev result, r, s' => ∃ fault, (apply id seen_rev result fault).exec s = (r, s')

/-! ## The pass -/

/-- Sessions whose summary call failed, and until when each is skipped. -/
abbrev RetryAt := List (String × Int)

def completionParams (cfg : SummaryConfig) (cand : Candidate) : Json :=
  let agent := (cfg.ai_agent_id.map fun a => ("agent_id", Json.str a)).toList
  .obj (agent ++ [("max_tokens", .int cfg.summary_max_tokens),
    ("messages", .arr [.obj [("content", .str (prompt ++ "\n\n" ++ cand.transcript)),
      ("role", .str "user")]])])

/-- The candidates of a pass, one after the other; whether anything synced changed. The pass is given
    up once `ai` fails twice in a row. -/
def summarizeAll (cfg : SummaryConfig) (now : Int) :
    List Candidate → (consecutive_errors : Nat) → RetryAt → (changed : Bool) →
      SummaryLane (Bool × RetryAt)
  | [], _, retry, changed => return (changed, retry)
  | cand :: cands, consecutive_errors, retry, changed => do
    let reply ← Async.perform (.chatCompletion (completionParams cfg cand))
    match (reply : Except String Json) with
    | .ok v =>
      let parsed := ((v.get "content").bind Json.asStr).bind (parseSummary cfg.fromStr cfg.toLowercase)
      let applied ← Async.perform (.apply cand.id cand.rev parsed)
      match (applied : Except String Bool) with
      | .ok true => summarizeAll cfg now cands 0 retry true
      | .ok false | .error _ => summarizeAll cfg now cands 0 retry changed
    | .error e =>
      -- nothing is recorded, the session stays a candidate
      let retry := (cand.id, now + sessionRetryMs) :: retry.filter (·.1 ≠ cand.id)
      if consecutive_errors + 1 ≥ 2 ∨ isMissingPlugin e then return (changed, retry)
      else summarizeAll cfg now cands (consecutive_errors + 1) retry changed

/-- Summarize up to `summaryBatch` idle sessions. -/
def summarizePass (cfg : SummaryConfig) (now : Int) (retry : RetryAt) :
    SummaryLane (Bool × RetryAt) := do
  let idle_ms : Int := max (-2 ^ 63) (min i64Max (cfg.summary_idle_secs * 1000))
  let idle_before := wrapI64 (now - idle_ms)
  let retry := retry.filter (now < ·.2)
  let cands ← Async.perform (.candidates idle_before (retry.map Prod.fst))
  match (cands : Except String (List Candidate)) with
  | .ok cands => summarizeAll cfg now cands 0 retry false
  | .error _ => return (false, retry)

/-- Passes at some times, one after the other. -/
def workLane (cfg : SummaryConfig) : List Int → RetryAt → SummaryLane Unit
  | [], _ => return ()
  | now :: nows, retry => do
    let (_, retry) ← summarizePass cfg now retry
    workLane cfg nows retry

/-! ## The lane beside the other tasks -/

/-- The store, and the process that is alive: the lanes of the ones before it are gone. -/
structure Machine where
  store : Store
  process : Nat

/-- A call of another task, or a restart of the process. -/
inductive MachineLabel where
  | call (l : CallLabel)
  | restart

inductive MachineStep : Machine → MachineLabel → Machine → Prop
  | call {m l s'} (h : CallStep m.store l s') (hcall : ∀ id rev result, l.call ≠ .apply id rev result) :
      MachineStep m (.call l) { m with store := s' }
  | restart {m} : MachineStep m .restart { m with process := m.process + 1 }

/-- What the lane of a process awaits is answered while the process is alive. -/
def SummaryServed (i : Nat) (m : Machine) (e : SummaryAwait) (r : e.Answer) (m' : Machine) : Prop :=
  i = m.process ∧ Summarized m.store e r m'.store ∧ m'.process = m.process

abbrev SummaryLabel := Async.PoolLabel Nat SummaryAwait SummaryAwait.Answer MachineLabel

abbrev SummaryPool := Async.Pool Nat SummaryAwait SummaryAwait.Answer Unit Machine

def SummaryStep : SummaryPool → SummaryLabel → SummaryPool → Prop :=
  Async.PoolStep SummaryServed MachineStep

/-- A new database. Each process starts a lane, with nothing to skip. -/
def SummaryPool.start (cfg : SummaryConfig) (times : Nat → List Int) : SummaryPool where
  tasks i := workLane cfg (times i) []
  world := { store := .empty, process := 0 }

/-- The calls in a run that are not made by the lane. -/
def callsOf (trace : List SummaryLabel) : List CallLabel :=
  trace.filterMap fun
    | .env (.call l) => some l
    | _ => none

/-! ## What a run has done -/

/-- The title that a call has set by hand for a session. -/
def setTitle (id : String) (call : Call) (reply : Except String Reply) : Option String :=
  match call with
  | .update id' (some title) _ =>
    if id' = id ∧ reply.isOk then some (truncateChars (trim title) 512) else none
  | _ => none

/-- The title that was set by hand last. -/
def lastTitle (id : String) : List SummaryLabel → Option String
  | [] => none
  | .env (.call l) :: trace => (setTitle id l.call l.reply).or (lastTitle id trace)
  | _ :: trace => lastTitle id trace

/-- A result for a session has been written that was made at a revision not before `rev`. -/
def Handled (trace : List SummaryLabel) (id : String) (rev : Nat) : Prop :=
  ∃ i seen_rev result changed, .act i (.apply id seen_rev result) (.ok changed) ∈ trace ∧
    (rev : Int) ≤ seen_rev

/-! ## Runs that are computed -/

/-- How the database, without errors, and an `ai` that answers `reply` serve a lane. -/
def serveSummary (reply : Except String Json) (s : Store) : (e : SummaryAwait) → e.Answer × Store
  | .candidates idle_before skip => (.ok (candidates s idle_before skip), s)
  | .chatCompletion _ => (reply, s)
  | .apply id seen_rev result => (apply id seen_rev result none).exec s

theorem summarized_serveSummary (reply : Except String Json) (s : Store) (e : SummaryAwait) :
    Summarized s e (serveSummary reply s e).1 (serveSummary reply s e).2 := by
  cases e with
  | candidates => exact ⟨rfl, .inl rfl⟩
  | chatCompletion => rfl
  | apply => exact ⟨none, rfl⟩

/-- A call beside the lane, what the lane awaits next, or a restart. -/
inductive MachineRequest where
  | call (request : CallRequest)
  | act (reply : Except String Json)
  | restart

def answerMachine (p : SummaryPool) : MachineRequest → Option (SummaryLabel × SummaryPool)
  | .call request =>
    match request.1 with
    | .apply .. => none
    | _ =>
      let r := answerCall p.world.store request
      some (.env (.call r.1), { p with world := { p.world with store := r.2 } })
  | .act reply =>
    match p.tasks p.world.process with
    | .done _ => none
    | .call e k =>
      let r := serveSummary reply p.world.store e
      some (.act p.world.process e r.1, {
        tasks := Function.update p.tasks p.world.process (k r.1)
        world := { p.world with store := r.2 } })
  | .restart =>
    some (.env .restart, { p with world := { p.world with process := p.world.process + 1 } })

theorem summaryStep_answerMachine {p p' : SummaryPool} {request : MachineRequest} {l : SummaryLabel}
    (h : answerMachine p request = some (l, p')) : SummaryStep p l p' := by
  cases request with
  | call request =>
    obtain ⟨call, fault⟩ := request
    cases call with
    | apply => cases h
    | resolve | append | update | delete | requeue | saveProgress | finish =>
      obtain ⟨rfl, rfl⟩ := Prod.mk.inj (Option.some.inj h)
      exact .env (.call (callStep_answerCall _ _) fun _ _ _ heq => nomatch heq)
  | act reply =>
    unfold answerMachine at h
    cases htask : p.tasks p.world.process with
    | done a => simp only [htask] at h; cases h
    | call e k =>
      simp only [htask] at h
      obtain ⟨rfl, rfl⟩ := Prod.mk.inj (Option.some.inj h)
      exact .act htask ⟨rfl, summarized_serveSummary reply p.world.store e, rfl⟩
  | restart =>
    obtain ⟨rfl, rfl⟩ := Prod.mk.inj (Option.some.inj h)
    exact .env .restart

end Chats
