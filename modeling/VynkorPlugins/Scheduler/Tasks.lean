import Mathlib.Data.List.Sort
import VynkorPlugins.Base.Async
import VynkorPlugins.Scheduler.Model

/-!
# Requests and scans

The tasks of the `scheduler` plugin (`lib.rs`): a request of the kernel, and the scan that each tick
of the timer spawns. They await the clock, the database and the actions they dispatch.
-/

namespace Scheduler

structure NewSchedule where
  id : Option String
  name : Option String
  enabled : Bool
  trigger : Trigger
  fire : Fire

inductive SchedulerRequest where
  | Set (new : NewSchedule)
  | Get (id : String)
  | List (limit offset : Nat)
  | Delete (id : String)

/-- The answers, before they are encoded. -/
inductive Reply where
  | stored (created : Bool) (doc : ScheduleDoc)
  | schedule (doc : Option ScheduleDoc)
  | schedules (page : List ScheduleDoc) (total : Nat)
  | deleted (deleted : Bool)

/-! ## What a task awaits -/

/-- The function that writes a document. -/
inductive Writer where
  | schedule_set
  | mark_fired
  | record_last_error

/-- The fire that an event is published or an action called for is told along. -/
inductive Eff where
  | now
  | db_keys
  | db_batch_get (keys : List String)
  | db_get (id : String)
  | db_set (writer : Writer) (doc : ScheduleDoc)
  | db_delete (id : String)
  | db_incr
  | publish_fired (marked : MarkedFire) (payload : Json)
  | call_action (marked : MarkedFire) (name : String) (params : Json)
  | reply (result : Except String Reply)

/-- The calls to other plugins come back with an error where they fail. -/
@[reducible] def Eff.Answer : Eff → Type
  | .now => Int64
  | .db_keys => Except String (List String)
  | .db_batch_get _ => Except String (List ScheduleDoc)
  | .db_get _ => Except String (Option ScheduleDoc)
  | .db_set .. => Except String Unit
  | .db_delete _ => Except String Bool
  | .db_incr => Except String Nat
  | .publish_fired .. => Unit
  | .call_action .. => Except String Unit
  | .reply _ => Unit

abbrev Act (α : Type) := Async Eff Eff.Answer α

def await (e : Eff) : Act e.Answer := Async.perform e

namespace Db

def next_id : Act (Except String Nat) := await .db_incr

def put (writer : Writer) (doc : ScheduleDoc) : Act (Except String Unit) := await (.db_set writer doc)

def get (id : String) : Act (Except String (Option ScheduleDoc)) := await (.db_get id)

/-- The documents whose keys are listed: two calls, between which other tasks may move. -/
def list : Act (Except String (List ScheduleDoc)) := do
  match ← await .db_keys with
  | .error e => return .error e
  | .ok keys => if keys = [] then return .ok [] else await (.db_batch_get keys)

def delete (id : String) : Act (Except String Bool) := await (.db_delete id)

end Db

def now_ms : Act Int64 := await .now

/-! ## Requests -/

def build_doc (id : String) (new : NewSchedule) (created_at_ms now_ms : Int64) : ScheduleDoc where
  id
  name := new.name
  enabled := new.enabled
  trigger := new.trigger
  fire := new.fire
  fired_once := false
  fire_count := 0
  last_fired_ms := none
  last_error := none
  created_at_ms
  updated_at_ms := now_ms

/-- The last part of `Set`. -/
def store (created : Bool) (doc : ScheduleDoc) : Act (Except String Reply) := do
  match ← Db.put .schedule_set doc with
  | .error e => return .error e
  | .ok () => return .ok (.stored created doc)

def schedule_set (new : NewSchedule) (now_ms : Int64) : Act (Except String Reply) := do
  match new.id with
  | some id =>
    match ← Db.get id with
    | .error e => return .error e
    | .ok existing =>
      store existing.isNone
        (build_doc id new ((existing.map ScheduleDoc.created_at_ms).getD now_ms) now_ms)
  | none =>
    match ← Db.next_id with
    | .error e => return .error e
    | .ok id => store true (build_doc (toString id) new now_ms now_ms)

def id_num (doc : ScheduleDoc) : UInt64 := (Rust.parseU64 doc.id).getD 0

/-- Whether a schedule is listed no later than another one: the soonest deadline first, those without
    one last. -/
def listed_before (c : Crates) (a b : ScheduleDoc) : Bool :=
  match c.next_fire_ms a, c.next_fire_ms b with
  | some x, some y => x < y || (x = y && id_num a ≤ id_num b)
  | some _, none => true
  | none, some _ => false
  | none, none => id_num a ≤ id_num b

def apply (c : Crates) (req : SchedulerRequest) (now_ms : Int64) : Act (Except String Reply) := do
  match req with
  | .Set new => schedule_set new now_ms
  | .Get id =>
    match ← Db.get id with
    | .error e => return .error e
    | .ok doc => return .ok (.schedule doc)
  | .List limit offset =>
    match ← Db.list with
    | .error e => return .error e
    | .ok docs =>
      let sorted := docs.insertionSort fun a b => listed_before c a b
      return .ok (.schedules ((sorted.drop offset).take limit) docs.length)
  | .Delete id =>
    match ← Db.delete id with
    | .error e => return .error e
    | .ok deleted => return .ok (.deleted deleted)

/-! ## Scans -/

/-- The fire goes on when its mark was not stored. -/
def mark_fired (fire : DueFire) (now_ms : Int64) : Act MarkedFire := do
  let _ ← Db.put .mark_fired (fire.marked_doc now_ms)
  return fire.marked now_ms

def MAX_ERROR_BYTES : Nat := 256

/-- Nothing comes back where the task panics: when an error text is cut inside of a character. -/
def record_last_error (id error : String) : Act (Option (Except String Unit)) := do
  match ← Db.get id with
  | .error e => return some (.error e)
  | .ok none => return some (.error ("schedule vanished: " ++ id))
  | .ok (some doc) =>
    match Rust.truncate error MAX_ERROR_BYTES with
    | none => return none
    | some msg =>
      let now ← now_ms
      let stored ← Db.put .record_last_error { doc with last_error := some msg, updated_at_ms := now }
      return some stored

/-- The dispatch of a marked fire. -/
def deliver (marked : MarkedFire) : Act (Option Unit) := do
  match marked.doc.fire with
  | .Event payload =>
    await (.publish_fired marked payload)
    return some ()
  | .Action name params =>
    match ← await (.call_action marked name params) with
    | .ok () => return some ()
    | .error e =>
      match ← record_last_error marked.doc.id e with
      | none => return none
      | some _ => return some ()

/-- The body of the scan's loop. -/
def fire_due (now_ms : Int64) (fire : DueFire) : Act (Option Unit) := do
  let marked ← mark_fired fire now_ms
  deliver marked

def fire_all (now_ms : Int64) : List DueFire → Act (Option Unit)
  | [] => return some ()
  | fire :: fires => do
    match ← fire_due now_ms fire with
    | none => return none
    | some () => fire_all now_ms fires

/-- How many schedules a scan has fired. -/
def scan_due (c : Crates) (now_ms : Int64) : Act (Option (Except String Nat)) := do
  match ← Db.list with
  | .error e => return some (.error e)
  | .ok docs =>
    let fires := c.due_schedules docs now_ms
    match ← fire_all now_ms fires with
    | none => return none
    | some () => return some (.ok fires.length)

/-! ## Tasks -/

/-- What the serve loop spawns a task for. -/
inductive Spawn where
  | tick
  | request (req : SchedulerRequest)

def Spawn.task (c : Crates) : Spawn → Act Unit
  | .tick => do
    let now ← now_ms
    let _ ← scan_due c now
    return ()
  | .request req => do
    let now ← now_ms
    let result ← apply c req now
    await (.reply result)

end Scheduler
