import VynkorPlugins.Base.Snapshot
import VynkorPlugins.Base.Text
import VynkorPlugins.Scheduler.World

/-!
# Requests one after the other

The ids that requests may name (`request.rs`), requests that do not overlap, and scans at any times.
-/

namespace Scheduler

open Async

def MAX_ID_BYTES : Nat := 64

def require_nonempty_id (id : String) : Except String String :=
  if id = "" then .error "params.id must be a non-empty string"
  else if MAX_ID_BYTES < id.utf8ByteSize then
    .error ("params.id exceeds " ++ toString MAX_ID_BYTES ++ " bytes")
  else .ok id

/-- The characters of `[A-Za-z0-9_-]`. -/
def validate_client_id (id : String) : Except String Unit :=
  if id.toList.all fun ch => ch.isAlphanum || ch = '_' || ch = '-' then .ok ()
  else .error "params.id may only contain ASCII letters, digits, '_' and '-'"

/-- What `parse_request` makes of the id of a request. -/
def SchedulerRequest.check_id : SchedulerRequest → Except String Unit
  | .Set new =>
    match new.id with
    | some id => do
      let _ ← require_nonempty_id id
      validate_client_id id
    | none => .ok ()
  | .List .. => .ok ()
  | .Get id | .Delete id => do
    let _ ← require_nonempty_id id
    return ()

/-! ## Requests -/

/-- The world after some requests, and the ids of the stored documents that a request has named. -/
structure Calls where
  world : World
  given : List String

/-- The id that a request sets. -/
def SchedulerRequest.set_id : SchedulerRequest → Option String
  | .Set new => new.id
  | .Get _ | .List .. | .Delete _ => none

/-- A request, at any time and with any fate of its calls. -/
inductive CallStep (c : Crates) : Calls → SchedulerRequest → Calls → Prop
  | call {s : Calls} {req : SchedulerRequest} {now_ms : Int64} {result : Except String Reply} {w : World}
      (hid : req.check_id = .ok ()) (hcall : Exec (Alone c) s.world (apply c req now_ms) result w) :
      CallStep c s req
        { world := w, given := (req.set_id.toList ++ s.given).filter fun id => w.docs.contains id }

/-! ## Calls that succeed -/

def World.serveOk (c : Crates) (clock : Int64) (e : Eff) (w : World) : e.Answer × World :=
  World.serve c .tick 0 e (w.turn clock .ok)

theorem alone_serveOk (c : Crates) (clock : Int64) (w : World) (e : Eff) :
    Alone c w e (World.serveOk c clock e w).1 (World.serveOk c clock e w).2 :=
  ⟨clock, .ok, rfl⟩

/-- A function whose calls all succeed. -/
theorem exec_serveOk {α : Type} (c : Crates) (clock : Int64) (m : Act α) (w : World) :
    Exec (Alone c) w m (run (World.serveOk c clock) m w).1 (run (World.serveOk c clock) m w).2 :=
  exec_run (alone_serveOk c clock) m w

def answerCall (c : Crates) (s : Calls) (req : SchedulerRequest) : Option (SchedulerRequest × Calls) :=
  match req.check_id with
  | .error _ => none
  | .ok () =>
    let w := (run (World.serveOk c 0) (apply c req 0) s.world).2
    some (req, { world := w, given := (req.set_id.toList ++ s.given).filter fun id => w.docs.contains id })

theorem callStep_answerCall {c : Crates} {s s' : Calls} {a req : SchedulerRequest}
    (h : answerCall c s a = some (req, s')) : CallStep c s req s' := by
  unfold answerCall at h
  split at h
  · cases h
  · rename_i hid
    obtain ⟨rfl, rfl⟩ := Prod.mk.inj (Option.some.inj h)
    exact .call hid (exec_serveOk c 0 _ _)

/-! ## Scans -/

/-- A scan at any time. -/
inductive ScanAt (c : Crates) (id : String) : Scans → Int64 → Scans → Prop
  | scan {s : Scans} {now_ms : Int64} {result : Option (Except String Nat)} {w : World}
      (hscan : Exec (Alone c) { s.world with history := .empty } (scan_due c now_ms) result w) :
      ScanAt c id s now_ms
        { world := w, log := { now_ms, dispatches := w.history.dispatches id } :: s.log }

/-- The scans after a time dispatch the schedule for later instants only. -/
def StartsFresh (c : Crates) (id : String) (t : Int64) (w : World) : Prop :=
  ∀ trace s,
    Transition.Run (Transition.Where (fun _ now_ms => t ≤ now_ms) (ScanAt c id)) { world := w, log := [] }
      trace s →
    ∀ r ∈ s.log, ∀ d ∈ r.dispatches, t < d.scheduled_for_ms

end Scheduler

/-!
## Changes of a schedule

The tasks over a world that notes what the requests have made of one schedule, and since when each task
has its copy of the document.
-/

namespace Scheduler

open Async Snapshot

/-- What a request sets. -/
structure Content where
  name : Option String
  enabled : Bool
  trigger : Trigger
  fire : Fire

def ScheduleDoc.content (doc : ScheduleDoc) : Content where
  name := doc.name
  enabled := doc.enabled
  trigger := doc.trigger
  fire := doc.fire

structure Watched where
  world : World
  record : Record Nat Content

namespace Watched

variable (id : String) (s : Watched)

/-- What the stored document says of a request. -/
def content : Option Content :=
  s.world.docs[id]?.map ScheduleDoc.content

/-- A call that is answered is noted. -/
def note (i : Nat) : (e : Eff) → e.Answer → Record Nat Content
  | .db_batch_get _, .ok _ => s.record.reads i
  | .db_get id', .ok _ => if id' = id then s.record.reads i else s.record
  | .db_set .schedule_set doc, .ok _ =>
    if doc.id = id then s.record.change (some doc.content) else s.record
  | .db_delete id', .ok _ => if id' = id then s.record.change none else s.record
  | _, _ => s.record

end Watched

def HandleWatched (c : Crates) (spawn : Nat → Spawn) (id : String) (i : Nat) (s : Watched) (e : Eff)
    (r : e.Answer) (s' : Watched) : Prop :=
  Handle c spawn i s.world e r s'.world ∧ s'.record = s.note id i e r

def TurnWatched (s : Watched) (l : Int64 × Fate) (s' : Watched) : Prop :=
  s' = { s with world := s.world.turn l.1 l.2 }

abbrev WatchedTasks := Pool Nat Eff Eff.Answer Unit Watched

abbrev WatchedStep (c : Crates) (spawn : Nat → Spawn) (id : String) :
    WatchedTasks → TaskLabel → WatchedTasks → Prop :=
  PoolStep (HandleWatched c spawn id) TurnWatched

/-- No task has begun. -/
def WatchedTasks.start (c : Crates) (spawn : Nat → Spawn) (world : World) : WatchedTasks where
  tasks i := (spawn i).task c
  world := { world, record := .start }

/-- A scan writes the document back only if no request has changed it since the scan has read it, and
    no answer to a change is lost. -/
def Undisturbed (id : String) (s : Watched) : TaskLabel → Prop
  | .act _ (.db_set .schedule_set doc) _ =>
    doc.id = id → s.world.fate.done = true → s.world.fate.acknowledged = true
  | .act _ (.db_delete id') _ =>
    id' = id → s.world.fate.done = true → s.world.fate.acknowledged = true
  | .act i (.db_set _ doc) _ => doc.id = id → s.world.fate.done = true → s.record.Current i
  | _ => True

instance (id : String) (s : Watched) (l : TaskLabel) : Decidable (Undisturbed id s l) :=
  match l with
  | .act _ (.db_set .schedule_set doc) _ =>
    inferInstanceAs (Decidable (doc.id = id → s.world.fate.done = true → s.world.fate.acknowledged = true))
  | .act _ (.db_delete id') _ =>
    inferInstanceAs (Decidable (id' = id → s.world.fate.done = true → s.world.fate.acknowledged = true))
  | .act i (.db_set .mark_fired doc) _ | .act i (.db_set .record_last_error doc) _ =>
    inferInstanceAs (Decidable (doc.id = id → s.world.fate.done = true → s.record.Current i))
  | .act _ .now _ | .act _ .db_keys _ | .act _ (.db_batch_get _) _ | .act _ (.db_get _) _
  | .act _ .db_incr _ | .act _ (.publish_fired ..) _ | .act _ (.call_action ..) _ | .act _ (.reply _) _
  | .env _ => isTrue trivial

/-- What the last acknowledged change has left is what is stored. -/
def Watched.Honoured (id : String) (s : Watched) : Prop :=
  ∀ v, s.record.last = some v → s.content id = v

/-! ## Runs that are computed -/

def answerWatched (c : Crates) (spawn : Nat → Spawn) (id : String)
    (cond : Watched → TaskLabel → Prop) [∀ s l, Decidable (cond s l)] (p : WatchedTasks) :
    TaskRequest → Option (TaskLabel × WatchedTasks)
  | .act i =>
    match p.tasks i with
    | .done _ => none
    | .call e k =>
      let served := World.serve c (spawn i) i e p.world.world
      if cond p.world (.act i e served.1) then
        some (.act i e served.1,
          { tasks := Function.update p.tasks i (k served.1)
            world := { world := served.2, record := p.world.note id i e served.1 } })
      else none
  | .turn clock fate =>
    if cond p.world (.env (clock, fate)) then
      some (.env (clock, fate), { p with world := { p.world with world := p.world.world.turn clock fate } })
    else none

theorem watchedStep_answerWatched {c : Crates} {spawn : Nat → Spawn} {id : String}
    {cond : Watched → TaskLabel → Prop} [∀ s l, Decidable (cond s l)] {p p' : WatchedTasks}
    {a : TaskRequest} {l : TaskLabel} (h : answerWatched c spawn id cond p a = some (l, p')) :
    Transition.Where (fun p l => cond p.world l) (WatchedStep c spawn id) p l p' := by
  unfold answerWatched at h
  split at h
  · rename_i i
    split at h
    · cases h
    · rename_i e k htask
      simp only at h
      split_ifs at h with hc
      obtain ⟨rfl, rfl⟩ := Prod.mk.inj (Option.some.inj h)
      exact ⟨.act htask ⟨rfl, rfl⟩, hc⟩
  · rename_i clock fate
    split_ifs at h with hc
    obtain ⟨rfl, rfl⟩ := Prod.mk.inj (Option.some.inj h)
    exact ⟨.env rfl, hc⟩

end Scheduler

/-!
## Scans whose calls fail

One scan over one store. Each of its calls ends as a table says: a scan lists the documents once, and
marks, dispatches and records a schedule at most once.
-/

namespace Scheduler

open Async

/-- How the calls of a scan end, those about one schedule by its id. -/
structure Ends where
  keys : Fate
  rows : Fate
  mark : String → Fate
  dispatch : String → Except String Unit
  read : String → Fate
  record : String → Fate
  clock : Nat → Int64

/-- The store, and the dispatches that the scan has attempted so far. -/
structure Scanning where
  world : World
  attempts : List MarkedFire

def Fire.isAction : Fire → Bool
  | .Event _ => false
  | .Action .. => true

namespace Ends

variable (o : Ends)

def dispatched (id : String) : Fate :=
  match o.dispatch id with
  | .ok () => .ok
  | .error e => .refused e

def fate : Eff → Fate
  | .db_keys => o.keys
  | .db_batch_get _ => o.rows
  | .db_get id => o.read id
  | .db_set .mark_fired doc => o.mark doc.id
  | .db_set .record_last_error doc => o.record doc.id
  | .call_action marked _ _ => o.dispatched marked.doc.id
  | _ => .ok

def attempt (attempts : List MarkedFire) : Eff → List MarkedFire
  | .publish_fired marked _ => attempts ++ [marked]
  | .call_action marked _ _ => attempts ++ [marked]
  | _ => attempts

/-- What a call is answered. -/
def serve (c : Crates) (e : Eff) (s : Scanning) : e.Answer × Scanning :=
  let served := World.serve c .tick 0 e (s.world.turn (o.clock s.attempts.length) (o.fate e))
  (served.1, { world := served.2, attempts := attempt s.attempts e })

/-- A scan to its end. -/
def scan (c : Crates) (now_ms : Int64) (w : World) : Option (Except String Nat) × Scanning :=
  run (o.serve c) (scan_due c now_ms) { world := w, attempts := [] }

/-- The fires that the scan is to make: none where the documents cannot be listed. -/
def due (c : Crates) (now_ms : Int64) (w : World) : List DueFire :=
  if o.keys.acknowledged = true ∧ o.rows.acknowledged = true then
    c.due_schedules (w.rows w.docs.keys) now_ms
  else []

/-- The action of a fire fails. -/
def Fails (fire : DueFire) (e : String) : Prop :=
  fire.doc.fire.isAction = true ∧ o.dispatch fire.doc.id = .error e

/-- Where the database gives the document of a failed action, its error can be cut. -/
def Cuttable (fires : List DueFire) : Prop :=
  ∀ fire ∈ fires, ∀ e, o.Fails fire e → (o.read fire.doc.id).acknowledged = true →
    Rust.CutsAt e MAX_ERROR_BYTES

end Ends

/-- The document tells the beginning of an error, of at most 256 bytes. -/
def Tells (e : String) (doc : ScheduleDoc) : Prop :=
  ∃ msg rest, doc.last_error = some msg ∧ e = msg ++ rest ∧ msg.utf8ByteSize ≤ 256

/-- A scan has run to its end, has attempted every due fire once, and has left the errors of the
    failed actions in their documents, as far as the database has read and written these. -/
structure Completed (c : Crates) (o : Ends) (now_ms : Int64) (w : World)
    (r : Option (Except String Nat) × Scanning) : Prop where
  ends : r.1 ≠ none
  attempts : r.2.attempts = (o.due c now_ms w).map fun fire => fire.marked now_ms
  recorded : ∀ fire ∈ o.due c now_ms w, ∀ e, o.Fails fire e →
    (o.read fire.doc.id).acknowledged = true → (o.record fire.doc.id).done = true →
      ∃ doc, r.2.world.docs[fire.doc.id]? = some doc ∧ Tells e doc

end Scheduler
