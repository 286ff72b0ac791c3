import Mathlib.Data.List.Infix
import VynkorPlugins.Base.Async
import VynkorPlugins.Chats.Calls
import VynkorPlugins.Chats.Store

/-!
# Vectors of turns and summaries

What the embedding pass reads and writes in the store (`embed.rs`).
-/

namespace Chats

def embedBatch : Nat := 64
def textMaxChars : Nat := 2000

/-- After this many individual failures a turn is given up (`embedded = -1`). -/
def maxDocAttempts : Nat := 3

def clip (s : String) (max : Nat) : String :=
  String.ofList (s.toList.take max)

/-! ## Turns -/

structure TurnDoc where
  id : String
  session_id : String
  text : String
  metadata : Json

def pendingTurns (s : Store) : List TurnDoc :=
  let rows : List (Turn × String) := s.turns.toList.filterMap fun (_, t) =>
    match s.live t.session_id with
    | some row => if t.embedded = 0 ∧ row.tier = "full" then some (t, row.kind) else none
    | none => none
  (rows.take embedBatch).map fun r =>
    { id := r.1.id
      session_id := r.1.session_id
      text := clip ("Q: " ++ r.1.user_text ++ "\nA: " ++ r.1.answer_text) textMaxChars
      metadata := .obj [("at", .int r.1.time), ("kind", .str r.2),
        ("session_id", .str r.1.session_id)] }

/-- Changes the turns with some ids. -/
def updateTurns (ids : List String) (f : Turn → Turn) : Tx Store Unit :=
  modify fun s => { s with turns := s.turns.map fun _ t => if t.id ∈ ids then f t else t }

/-- Mark turns embedded. -/
def setEmbedded (docs : List TurnDoc) (fault : Option String) : Db Store Unit :=
  transaction fault <| docs.forM fun d => updateTurns [d.id] fun t => { t with embedded := 1 }

/-- A document the vector store rejected on its own: count the attempt and stop retrying it after
    `maxDocAttempts` so it cannot block the queue. -/
def bumpAttempts (docs : List TurnDoc) (fault : Option String) : Db Store Unit :=
  transaction fault <| docs.forM fun d => updateTurns [d.id] fun t => { t with
    embed_attempts := t.embed_attempts + 1
    embedded := if t.embed_attempts + 1 ≥ maxDocAttempts then -1 else t.embedded }

/-- Adds a turn to the ones of a dead session. -/
def addDead (dead : List (String × List String)) (sid tid : String) : List (String × List String) :=
  if dead.any fun d => d.1 = sid then
    dead.map fun d => if d.1 = sid then (d.1, d.2 ++ [tid]) else d
  else dead ++ [(sid, [tid])]

/-- Sessions among the `attempted` (session, turn) pairs that are no longer live, with their turn ids.
    Whatever reached `vector-db` for them must be deleted again. -/
def deadSessions (s : Store) (attempted : List (String × String)) : List (String × List String) :=
  attempted.foldl (fun dead a =>
    if (s.live a.1).isSome then dead else addDead dead a.1 a.2) []

/-- Requeues one session after the other, up to the first error. `fault` gives the error of each. -/
def requeueAll (fault : String → Option String) : List (String × List String) → Db Store Unit
  | [] => return ()
  | d :: dead => do
    requeue d.1 d.2 (fault d.1)
    requeueAll fault dead

/-- `query` is the error of a refused query. -/
def requeueDead (attempted : List (String × String)) (query : Option String)
    (fault : String → Option String) : Db Store Unit := do
  if let some e := query then throw (dbErr e)
  requeueAll fault (deadSessions (← get) attempted)

/-- The end of a pass over turns: one call of `with_db` with several transactions. -/
def settleTurns (bad good : List TurnDoc) (attempted : List (String × String))
    (bump mark query : Option String) (fault : String → Option String) : Db Store Unit := do
  bumpAttempts bad bump
  setEmbedded good mark
  -- rejected or timed-out documents count as possibly written too
  requeueDead attempted query fault

/-! ## Summaries -/

structure SessionDoc where
  id : String
  text : String
  metadata : Json
  summarized_rev : Int

def pendingSessions (s : Store) : List SessionDoc :=
  let rows := s.sessions.selectWhere fun _ row =>
    row.state = .live && row.summary ≠ "" && row.embedded_rev < row.summarized_rev
  ((rows.insertionSort (·.2.last_at ≤ ·.2.last_at)).take embedBatch).map fun r =>
    { id := r.1
      text := clip (r.2.title ++ "\n" ++ r.2.summary) textMaxChars
      metadata := .obj [("at", .int r.2.last_at), ("kind", .str r.2.kind), ("session_id", .str r.1)]
      summarized_rev := r.2.summarized_rev }

/-- Marks the live sessions among `docs`; the ids of the others. -/
def markDocs : List SessionDoc → Tx Store (List String)
  | [] => return []
  | d :: docs => do
    if ((← get).live d.id).isSome then
      updateSession d.id fun row => { row with embedded_rev := max row.embedded_rev d.summarized_rev }
      markDocs docs
    else return d.id :: (← markDocs docs)

def markSessions (docs : List SessionDoc) (fault : Option String) : Db Store (List String) :=
  transaction fault (markDocs docs)

/-- The end of a pass over summaries: one call of `with_db`. -/
def settleSessions (docs : List SessionDoc) (mark : Option String) (fault : String → Option String) :
    Db Store Unit := do
  let dead ← markSessions docs mark
  requeueAll fault (dead.map fun sid => (sid, []))

end Chats

/-!
## The lanes of the worker

The cleanup lane (`Worker::cascade_pass`) and the embedding pass of the work lane
(`Worker::embed_turns`, `Worker::embed_sessions`). They await the database, the calls to other
plugins and the clock; other tasks may move at each of these points.
-/

namespace Chats

/-! ## What a lane awaits -/

inductive Await where
  | dueJobs (now : Int)
  | saveProgress (job : Job) (done : List String) (now : Int) (backoff : Bool)
  | finish (job : Job) (now : Int)
  | pendingTurns
  | settleTurns (bad good : List TurnDoc) (attempted : List (String × String))
  | requeueDead (attempted : List (String × String))
  | pendingSessions
  | settleSessions (docs : List SessionDoc)
  | rpc (action : String) (params : Json) (timeout_ms : Nat)
  | overBudget

/-- What is awaited comes back with an error where the source has a `Result`. -/
@[reducible] def Await.Answer : Await → Type
  | .dueJobs _ => Except String (List Job)
  | .saveProgress .. => Except String Unit
  | .finish .. => Except String Bool
  | .pendingTurns => Except String (List TurnDoc)
  | .settleTurns .. => Except String Unit
  | .requeueDead _ => Except String Unit
  | .pendingSessions => Except String (List SessionDoc)
  | .settleSessions _ => Except String Unit
  | .rpc .. => Except String Json
  | .overBudget => Bool

abbrev Lane (α : Type) := Async Await Await.Answer α

/-- How the world answers: the database by its functions, any statement of which it may refuse; the
    other plugins and the clock as they like. -/
def Served (s : Store) : (e : Await) → e.Answer → Store → Prop
  | .dueJobs now, r, s' => s' = s ∧ (r = .ok (dueJobs now s) ∨ ∃ e, r = .error e)
  | .saveProgress job done now backoff, r, s' =>
    ∃ fault, (saveProgress job done now backoff fault).exec s = (r, s')
  | .finish job now, r, s' => ∃ fault, (finish job now fault).exec s = (r, s')
  | .pendingTurns, r, s' => s' = s ∧ (r = .ok (pendingTurns s) ∨ ∃ e, r = .error e)
  | .settleTurns bad good attempted, r, s' =>
    ∃ bump mark query fault, (settleTurns bad good attempted bump mark query fault).exec s = (r, s')
  | .requeueDead attempted, r, s' =>
    ∃ query fault, (requeueDead attempted query fault).exec s = (r, s')
  | .pendingSessions, r, s' => s' = s ∧ (r = .ok (pendingSessions s) ∨ ∃ e, r = .error e)
  | .settleSessions docs, r, s' => ∃ mark fault, (settleSessions docs mark fault).exec s = (r, s')
  | .rpc .., _, s' => s' = s
  | .overBudget, _, s' => s' = s

namespace Lane

def await (e : Await) : Lane e.Answer := Async.perform e

/-- `Rpc::call`. -/
def call (action : String) (params : Json) (timeout_ms : Nat) : Lane (Except String Json) :=
  await (.rpc action params timeout_ms)

def dueJobs (now : Int) : Lane (Except String (List Job)) := await (.dueJobs now)

def saveProgress (job : Job) (done : List String) (now : Int) (backoff : Bool) :
    Lane (Except String Unit) :=
  await (.saveProgress job done now backoff)

def finish (job : Job) (now : Int) : Lane (Except String Bool) := await (.finish job now)

def pendingTurns : Lane (Except String (List TurnDoc)) := await .pendingTurns

def settleTurns (bad good : List TurnDoc) (attempted : List (String × String)) :
    Lane (Except String Unit) :=
  await (.settleTurns bad good attempted)

def requeueDead (attempted : List (String × String)) : Lane (Except String Unit) :=
  await (.requeueDead attempted)

def pendingSessions : Lane (Except String (List SessionDoc)) := await .pendingSessions

def settleSessions (docs : List SessionDoc) : Lane (Except String Unit) :=
  await (.settleSessions docs)

/-- `calls > 0 && started.elapsed() >= budget`: at least one call per pass, whatever the budget. -/
def overBudget (calls : Nat) : Lane Bool :=
  if calls > 0 then await .overBudget else return false

end Lane

/-! ## The cleanup lane -/

/-- What the pass keeps between two jobs: the plugins that failed, and the number of calls. -/
structure PassState where
  down : List String := []
  calls : Nat := 0

/-- What the pass keeps of the job it works on. -/
structure JobState where
  done : List String
  failed : Bool := false
  out_of_budget : Bool := false

/-- The steps of one job. A plugin that fails once is not called again in this pass. -/
def runSteps : List Step → PassState → JobState → Lane (PassState × JobState)
  | [], pass, job => return (pass, job)
  | step :: steps, pass, job => do
    if step.key ∈ job.done then runSteps steps pass job
    else if step.plugin ∈ pass.down then runSteps steps pass { job with failed := true }
    else if ← Lane.overBudget pass.calls then runSteps steps pass { job with out_of_budget := true }
    else
      let pass := { pass with calls := pass.calls + 1 }
      match ← Lane.call step.action step.params 30000 with
      | .ok _ => runSteps steps pass { job with done := step.key :: job.done }
      -- A missing plugin may only be restarting: the step stays open.
      | .error _ =>
        runSteps steps { pass with down := step.plugin :: pass.down } { job with failed := true }

def runJobs (now : Int) : List Job → PassState → Bool → Lane Bool
  | [], _, finished => return finished
  | job :: jobs, pass, finished => do
    if ← Lane.overBudget pass.calls then
      return finished -- the rest stays due for the next pass
    let (pass, state) ← runSteps (stepsOf job) pass { done := job.done }
    if state.failed || state.out_of_budget then
      let _ ← Lane.saveProgress job state.done now state.failed
      runJobs now jobs pass finished
    else
      match ← Lane.finish job now with
      | .ok ok => runJobs now jobs pass (finished || ok)
      | .error _ => runJobs now jobs pass finished

/-- Run due cascade jobs. True if a session row went away. -/
def cascadePass (now : Int) : Lane Bool := do
  match ← Lane.dueJobs now with
  | .ok jobs => runJobs now jobs {} false
  | .error _ => return false

/-- Passes at some times, one after the other. -/
def cleanupLane : List Int → Lane Unit
  | [] => return ()
  | now :: nows => do
    let _ ← cascadePass now
    cleanupLane nows

/-! ## The embedding pass -/

/-- The kernel answers `action not found` when the plugin owning an action is not running. -/
def isMissingPlugin (err : String) : Bool :=
  "action not found".toList <:+: err.toList

def turnPayload (docs : List TurnDoc) : List Json :=
  docs.map fun d => .obj [("id", .str d.id), ("metadata", d.metadata), ("text", .str d.text)]

def sessionPayload (docs : List SessionDoc) : List Json :=
  docs.map fun d => .obj [("id", .str d.id), ("metadata", d.metadata), ("text", .str d.text)]

/-- The parameters of `vec_upsert_batch`. -/
def upsertParams (collection : String) (docs : List Json) : Json :=
  .obj [("collection", .str collection), ("docs", .arr docs)]

/-- Retries the turns of a batch one by one; which of them were written, and which rejected. -/
def upsertEach : List TurnDoc → Lane (List TurnDoc × List TurnDoc)
  | [] => return ([], [])
  | d :: docs => do
    let one ← Lane.call "vec_upsert_batch" (upsertParams turnsCollection (turnPayload [d])) 30000
    let (good, bad) ← upsertEach docs
    match one with
    | .ok _ => return (d :: good, bad)
    | .error _ => return (good, d :: bad)

def embedTurns : Lane Unit := do
  match ← Lane.pendingTurns with
  | .error _ => return ()
  | .ok docs =>
    if docs.isEmpty then return ()
    let attempted := docs.map fun d => (d.session_id, d.id)
    match ← Lane.call "vec_upsert_batch" (upsertParams turnsCollection (turnPayload docs)) 60000 with
    | .ok _ =>
      let _ ← Lane.settleTurns [] docs attempted
    | .error e =>
      if isMissingPlugin e then return ()
      -- One bad document fails the whole batch: if `vector-db` answers a cheap probe the backend is
      -- fine, and the documents are tried one by one.
      match ← Lane.call "vec_stats" (.obj [("collection", .str turnsCollection)]) 5000 with
      | .error _ =>
        let _ ← Lane.requeueDead attempted
      | .ok _ =>
        let (good, bad) ← upsertEach docs
        let _ ← Lane.settleTurns bad good attempted

def embedSessions : Lane Unit := do
  match ← Lane.pendingSessions with
  | .error _ => return ()
  | .ok docs =>
    if docs.isEmpty then return ()
    match ← Lane.call "vec_upsert_batch" (upsertParams sessionsCollection (sessionPayload docs)) 60000 with
    | .error _ => return ()
    | .ok _ =>
      let _ ← Lane.settleSessions docs

/-- Embed pending turns and session summaries. The two halves are independent. -/
def embedPass : Lane Unit := do
  embedTurns
  embedSessions

/-! ## A lane beside the other tasks -/

abbrev LanePool := Async.Pool Unit Await Await.Answer Unit Store

abbrev LaneLabel := Async.PoolLabel Unit Await Await.Answer CallLabel

/-- The calls in a run that are not made by the lane. -/
def otherCalls (trace : List LaneLabel) : List CallLabel :=
  trace.filterMap fun
    | .env l => some l
    | .act .. => none

/-- A lane and the calls that the other tasks make beside it. -/
def LaneStep (beside : Store → Call → Prop) : LanePool → LaneLabel → LanePool → Prop :=
  Async.PoolStep (fun _ => Served) fun s l s' => CallStep s l s' ∧ beside s l.call

/-- The calls beside the one cleanup lane, which alone saves and finishes jobs. The work lane requeues
    a session that it has found to be live and then no longer so, which is one that has been
    deleted. -/
def BesideCleanup (s : Store) : Call → Prop
  | .saveProgress .. | .finish .. => False
  | .requeue id _ => s.tombstones.contains id
  | _ => True

instance (s : Store) (call : Call) : Decidable (BesideCleanup s call) := by
  cases call <;> unfold BesideCleanup <;> infer_instance

/-- How the database, without errors, and another plugin that answers `reply` serve a lane. -/
def serve (reply : Except String Json) (s : Store) : (e : Await) → e.Answer × Store
  | .dueJobs now => (.ok (dueJobs now s), s)
  | .saveProgress job keys now backoff => (saveProgress job keys now backoff none).exec s
  | .finish job now => (finish job now none).exec s
  | .pendingTurns => (.ok (pendingTurns s), s)
  | .settleTurns bad good attempted =>
    (settleTurns bad good attempted none none none fun _ => none).exec s
  | .requeueDead attempted => (requeueDead attempted none fun _ => none).exec s
  | .pendingSessions => (.ok (pendingSessions s), s)
  | .settleSessions docs => (settleSessions docs none fun _ => none).exec s
  | .rpc .. => (reply, s)
  | .overBudget => (false, s)

theorem served_serve (reply : Except String Json) (s : Store) (e : Await) :
    Served s e (serve reply s e).1 (serve reply s e).2 := by
  cases e with
  | dueJobs | pendingTurns | pendingSessions => exact ⟨rfl, .inl rfl⟩
  | saveProgress | finish => exact ⟨none, rfl⟩
  | settleTurns => exact ⟨none, none, none, _, rfl⟩
  | requeueDead => exact ⟨none, _, rfl⟩
  | settleSessions => exact ⟨none, _, rfl⟩
  | rpc | overBudget => rfl

/-- A call beside a lane, or an effect of the lane, in a run that is computed. -/
inductive LaneRequest where
  | call (request : CallRequest)
  | act (reply : Except String Json)

def answerLane (beside : Store → Call → Prop) [∀ s call, Decidable (beside s call)] (p : LanePool) :
    LaneRequest → Option (LaneLabel × LanePool)
  | .call request =>
    if beside p.world request.1 then
      let r := answerCall p.world request
      some (.env r.1, { p with world := r.2 })
    else none
  | .act reply =>
    match p.tasks () with
    | .done _ => none
    | .call e k =>
      let r := serve reply p.world e
      some (.act () e r.1, { tasks := Function.update p.tasks () (k r.1), world := r.2 })

theorem laneStep_answerLane {beside : Store → Call → Prop} [∀ s call, Decidable (beside s call)]
    {p p' : LanePool} {request : LaneRequest} {l : LaneLabel}
    (h : answerLane beside p request = some (l, p')) : LaneStep beside p l p' := by
  cases request with
  | call request =>
    simp only [answerLane] at h
    split_ifs at h with hbeside
    obtain ⟨rfl, rfl⟩ := Prod.mk.inj (Option.some.inj h)
    exact .env ⟨callStep_answerCall _ _, hbeside⟩
  | act reply =>
    unfold answerLane at h
    cases htask : p.tasks () with
    | done a => simp only [htask] at h; cases h
    | call e k =>
      simp only [htask] at h
      obtain ⟨rfl, rfl⟩ := Prod.mk.inj (Option.some.inj h)
      exact .act htask (served_serve reply p.world e)

/-! ## What a run has reset, and what was answered since -/

/-- The call that another plugin has answered `Ok`. -/
def answeredOk : LaneLabel → Option (String × Json)
  | .act _ (.rpc action params _) r =>
    match (r : Except String Json) with
    | .ok _ => some (action, params)
    | .error _ => none
  | _ => none

/-- A delete that did the work, or a requeue, of a session. -/
def resets (id : String) : LaneLabel → Bool
  | .env l =>
    match l.call, l.reply with
    | .delete id', .ok (.deleted d) => id' = id && d.deleted
    | .requeue id' _, .ok _ => id' = id
    | _, _ => false
  | .act .. => false

/-- The calls answered `Ok` in a run after the last delete or requeue of a session. -/
def okSince (id : String) : List LaneLabel → List (String × Json)
  | [] => []
  | l :: trace => if resets id l then [] else (answeredOk l).toList ++ okSince id trace

/-! ## What an embedding pass has tried to write -/

/-- A vector of a turn of a session, or of its summary. -/
structure VectorWrite where
  session_id : String
  turn_id : Option String
deriving DecidableEq

/-- The writes of a batch, when it is read. -/
def attempted : LaneLabel → List VectorWrite
  | .act _ .pendingTurns r =>
    match (r : Except String (List TurnDoc)) with
    | .ok docs => docs.map fun d => { session_id := d.session_id, turn_id := some d.id }
    | .error _ => []
  | .act _ .pendingSessions r =>
    match (r : Except String (List SessionDoc)) with
    | .ok docs => docs.map fun d => { session_id := d.id, turn_id := none }
    | .error _ => []
  | _ => []

/-- The database has refused the end of a pass. -/
def refused : LaneLabel → Bool
  | .act _ (.settleTurns ..) r => ((r : Except String Unit) matches .error _)
  | .act _ (.requeueDead _) r => ((r : Except String Unit) matches .error _)
  | .act _ (.settleSessions _) r => ((r : Except String Unit) matches .error _)
  | _ => false

/-- The error that a batch was answered with. A document alone has a shorter timeout. -/
def batchError : LaneLabel → Option String
  | .act _ (.rpc action _ timeout_ms) r =>
    match (r : Except String Json) with
    | .error e => if action = "vec_upsert_batch" ∧ timeout_ms = 60000 then some e else none
    | .ok _ => none
  | _ => none

/-- The cleanup of a session has been finished. -/
def finishes (id : String) : LaneLabel → Bool
  | .env l =>
    match l.call, l.reply with
    | .finish job _, .ok (.finished removed) => job.session_id = id && removed
    | _, _ => false
  | .act .. => false

/-- The row of the cascade names the vector. -/
def Names (s : Store) (w : VectorWrite) : Prop :=
  ∃ row, s.cascade[w.session_id]? = some row ∧ ∀ tid, w.turn_id = some tid → tid ∈ row.turn_ids

/-- The calls beside the embedding pass: any of them. -/
def BesideEmbed (_ : Store) (_ : Call) : Prop := True

instance (s : Store) (call : Call) : Decidable (BesideEmbed s call) :=
  inferInstanceAs (Decidable True)

/-- A half of an embedding pass has run, beside other calls, and its last effect was the last step. -/
structure Ended (half : Lane Unit) (s : Store) (trace : List LaneLabel) (p : LanePool) : Prop where
  run : Transition.Run (LaneStep BesideEmbed) { tasks := fun _ => half, world := s } trace p
  finished : p.tasks () = .done ()
  last : ∃ e r rest, trace = .act () e r :: rest

end Chats
