import VynkorPlugins.Base.Async
import VynkorPlugins.Base.Table
import VynkorPlugins.Calendar.Ics

/-!
# Requests and reminder scans

The tasks of the `calendar` plugin (`lib.rs`): a request of the kernel, and the scan that each tick of
the timer spawns. They await the clock, the database and `notify_send`.
-/

namespace Calendar

/-- The best-effort event after a request that changed something. -/
inductive ChangeEvent where
  | created (id : String)
  | updated (id : String)
  | deleted (id : String)
  | imported (imported updated : Nat)

/-- The answers, before they are encoded. -/
inductive Reply where
  | created (event : EventDoc)
  | event (event : Option EventDoc)
  | updated (event : EventDoc)
  | deleted (deleted : Bool)
  | imported (imported updated parsed : Nat) (event_ids : List String)
  | exported (text : List Char)

structure ActionResult where
  data : Reply
  event : Option ChangeEvent

/-! ## What a task awaits -/

/-- The function that writes a document, with what it writes the document for. -/
inductive Writer where
  | event_create
  | event_update (patch : EventPatch) (times_changed : Bool)
  | import_ics (event : ParsedEvent) (start_ms : Int64)
  | scan_due (fire : DueFire)

inductive Eff where
  | now
  | db_keys
  | db_batch_get (keys : List String)
  | db_get (id : String)
  | db_set (writer : Writer) (doc : EventDoc)
  | db_delete (id : String)
  | db_incr
  | publish_due (fire : DueFire)
  | notify_send (message : String)
  | reply (result : Except String Reply)
  | publish_changed (event : ChangeEvent)

/-- The calls to other plugins come back with an error where they fail. -/
@[reducible] def Eff.Answer : Eff → Type
  | .now => Int64
  | .db_keys => Except String (List String)
  | .db_batch_get _ => Except String (List EventDoc)
  | .db_get _ => Except String (Option EventDoc)
  | .db_set .. => Except String Unit
  | .db_delete _ => Except String Bool
  | .db_incr => Except String Nat
  | .publish_due _ => Unit
  | .notify_send _ => Except String Unit
  | .reply _ => Unit
  | .publish_changed _ => Unit

abbrev Act (α : Type) := Async Eff Eff.Answer α

def await (e : Eff) : Act e.Answer := Async.perform e

namespace Db

def next_id : Act (Except String Nat) := await .db_incr

def put (writer : Writer) (event : EventDoc) : Act (Except String Unit) := await (.db_set writer event)

def get (id : String) : Act (Except String (Option EventDoc)) := await (.db_get id)

/-- The documents whose keys are listed: two calls, between which other tasks may move. -/
def list : Act (Except String (List EventDoc)) := do
  match ← await .db_keys with
  | .error e => return .error e
  | .ok keys => if keys = [] then return .ok [] else await (.db_batch_get keys)

def delete (id : String) : Act (Except String Bool) := await (.db_delete id)

end Db

def now_ms : Act Int64 := await .now

/-! ## Import -/

/-- The events that are known by their UID, and what the import has done so far. -/
structure Import where
  by_uid : Table String EventDoc
  imported : Nat
  updated : Nat
  touched_ids : List String
  docs_written : Nat

/-- A later document takes the place of an earlier one. -/
def learn (by_uid : Table String EventDoc) (doc : EventDoc) : Table String EventDoc :=
  match doc.ics_uid with
  | some uid => by_uid.insert uid doc
  | none => by_uid

def Import.start (existing : List EventDoc) : Import where
  by_uid := existing.foldl learn ∅
  imported := 0
  updated := 0
  touched_ids := []
  docs_written := 0

/-- The end of an occurrence. -/
def ParsedEvent.endOf (event : ParsedEvent) (start_ms : Int64) : Option Int64 :=
  event.end_ms.map fun end_ms => start_ms + (end_ms - event.start_ms)

/-- The document of an occurrence that is not known yet. -/
def ParsedEvent.newDoc (event : ParsedEvent) (id : String) (start_ms now_ms : Int64) : EventDoc where
  id
  title := event.title
  description := event.description
  start_ms
  end_ms := event.endOf start_ms
  all_day := event.all_day
  remind_before_ms := event.remind_before_ms
  reminder_fired := false
  tags := []
  ics_uid := if event.uid = "" then none else some event.uid
  rrule := none
  created_at_ms := now_ms
  updated_at_ms := now_ms

/-- A known document for an occurrence. -/
def ParsedEvent.update (event : ParsedEvent) (doc : EventDoc) (start_ms updated_at_ms : Int64) :
    EventDoc :=
  { doc with
    reminder_fired :=
      if doc.start_ms ≠ start_ms ∨ doc.title ≠ event.title then false else doc.reminder_fired
    title := event.title
    description := event.description
    start_ms
    end_ms := event.endOf start_ms
    all_day := event.all_day
    remind_before_ms := event.remind_before_ms
    updated_at_ms }

/-- The known document of an event. -/
def Import.known (s : Import) (event : ParsedEvent) : Option EventDoc :=
  if event.uid = "" then none else s.by_uid[event.uid]?

/-- A known document was written. -/
def Import.wrote (s : Import) (event : ParsedEvent) (doc : EventDoc) : Import :=
  { s with
    by_uid := s.by_uid.insert event.uid doc
    updated := s.updated + 1
    touched_ids := s.touched_ids ++ [doc.id]
    docs_written := s.docs_written + 1 }

/-- A new document was written. -/
def Import.added (s : Import) (event : ParsedEvent) (doc : EventDoc) : Import :=
  { s with
    by_uid := if event.uid = "" then s.by_uid else s.by_uid.insert event.uid doc
    imported := s.imported + 1
    touched_ids := s.touched_ids ++ [doc.id]
    docs_written := s.docs_written + 1 }

/-- The body of the loop over the occurrences. -/
def import_occurrence (now : Int64) (event : ParsedEvent) (start_ms : Int64) (s : Import) :
    Act (Except String Import) := do
  if MAX_IMPORT_DOCS ≤ s.docs_written then
    return .error ("import exceeds " ++ toString MAX_IMPORT_DOCS ++
      " documents — narrow the calendar or the window")
  else
    match s.known event with
    | some doc =>
      let updated_at_ms ← now_ms
      let doc := event.update doc start_ms updated_at_ms
      match ← Db.put (.import_ics event start_ms) doc with
      | .error e => return .error e
      | .ok () => return .ok (s.wrote event doc)
    | none =>
      match ← Db.next_id with
      | .error e => return .error e
      | .ok id =>
        let doc := event.newDoc (toString id) start_ms now
        match ← Db.put (.import_ics event start_ms) doc with
        | .error e => return .error e
        | .ok () => return .ok (s.added event doc)

def import_occurrences (now : Int64) (event : ParsedEvent) :
    List Int64 → Import → Act (Except String Import)
  | [], s => return .ok s
  | start_ms :: starts, s => do
    match ← import_occurrence now event start_ms s with
    | .error e => return .error e
    | .ok s => import_occurrences now event starts s

def window_start (now : Int64) : Int64 := now - MS_PER_DAY

def window_end (now : Int64) : Int64 := saturating_add now (IMPORT_HORIZON_DAYS * MS_PER_DAY)

/-- Nothing comes back where the expansion of a recurrence does not end. -/
def import_events (fuel : Nat) (now : Int64) :
    List ParsedEvent → Import → Act (Option (Except String Import))
  | [], s => return some (.ok s)
  | event :: events, s =>
    match occurrences fuel event (window_start now) (window_end now) with
    | none => return none
    | some starts => do
      match ← import_occurrences now event starts s with
      | .error e => return some (.error e)
      | .ok s => import_events fuel now events s

/-- `is_ascii_whitespace` -/
def isAsciiWhitespace (ch : Char) : Bool :=
  ch = ' ' || ch = '\t' || ch = '\n' || ch = '\r' || ch.toNat = 12

/-- The events of an encoded calendar. -/
def decode_ics (c : Crates) (ics_base64 : String) : Except String (List ParsedEvent) := do
  let compact := String.ofList (ics_base64.toList.filter fun ch => !isAsciiWhitespace ch)
  let decoded ← (c.base64_decode compact).mapError fun e =>
    "params.ics_base64 is not valid base64: " ++ e
  let text ← (String.fromUTF8? decoded).elim
    (.error "params.ics_base64 does not decode to UTF-8 text") .ok
  let parsed ← parse_ics text.toList
  Rust.reject (parsed = []) "no VEVENT entries found in the calendar"
  return parsed

/-- The import at a time. -/
def import_at (fuel : Nat) (parsed : List ParsedEvent) (now : Int64) :
    Act (Option (Except String ActionResult)) := do
  match ← Db.list with
  | .error e => return some (.error e)
  | .ok existing =>
    match ← import_events fuel now parsed (.start existing) with
    | none => return none
    | some (.error e) => return some (.error e)
    | some (.ok s) =>
      return some (.ok
        { data := .imported s.imported s.updated parsed.length s.touched_ids
          event := some (.imported s.imported s.updated) })

def import_ics (c : Crates) (fuel : Nat) (ics_base64 : String) :
    Act (Option (Except String ActionResult)) := do
  match decode_ics c ics_base64 with
  | .error e => return some (.error e)
  | .ok parsed =>
    let now ← now_ms
    import_at fuel parsed now

/-! ## Requests -/

/-- Nothing comes back where a line of the calendar cannot be folded. -/
def export_ics : Act (Option (Except String ActionResult)) := do
  match ← Db.list with
  | .error e => return some (.error e)
  | .ok events =>
    match generate_ics (events.mergeSort fun a b => a.start_ms ≤ b.start_ms) with
    | none => return none
    | some text => return some (.ok { data := .exported text, event := none })

def event_create (e : NewEvent) : Act (Except String ActionResult) := do
  match ← Db.next_id with
  | .error e => return .error e
  | .ok id =>
    let now ← now_ms
    let doc : EventDoc :=
      { id := toString id, title := e.title, description := e.description, start_ms := e.start_ms,
        end_ms := e.end_ms, all_day := e.all_day, remind_before_ms := e.remind_before_ms,
        reminder_fired := false, tags := e.tags, ics_uid := none, rrule := e.rrule,
        created_at_ms := now, updated_at_ms := now }
    match ← Db.put .event_create doc with
    | .error e => return .error e
    | .ok () => return .ok { data := .created doc, event := some (.created doc.id) }

def event_update (id : String) (patch : EventPatch) : Act (Except String ActionResult) := do
  match ← Db.get id with
  | .error e => return .error e
  | .ok none => return .error ("event not found: " ++ id)
  | .ok (some doc) =>
    match patch.apply doc with
    | .error e => return .error e
    | .ok updated =>
      let now ← now_ms
      let updated := { updated with updated_at_ms := now }
      match ← Db.put (.event_update patch (patch.times_changed doc)) updated with
      | .error e => return .error e
      | .ok () => return .ok { data := .updated updated, event := some (.updated updated.id) }

def handle_action (c : Crates) (fuel : Nat) (params : Params) :
    Act (Option (Except String ActionResult)) := do
  match parse_request c params with
  | .error e => return some (.error e)
  | .ok (.Create e) => return some (← event_create e)
  | .ok (.Get id) =>
    match ← Db.get id with
    | .error e => return some (.error e)
    | .ok doc => return some (.ok { data := .event doc, event := none })
  | .ok (.Update id patch) => return some (← event_update id patch)
  | .ok (.Delete id) =>
    match ← Db.delete id with
    | .error e => return some (.error e)
    | .ok deleted =>
      return some (.ok
        { data := .deleted deleted, event := if deleted then some (.deleted id) else none })
  | .ok (.Import ics_base64) => import_ics c fuel ics_base64
  | .ok .Export => export_ics

/-! ## Scans -/

/-- The body of the scan's loop. A mark that is not stored ends the scan. -/
def fire_due (notify_enabled : Bool) (now : Int64) (fire : DueFire) : Act (Except String Unit) := do
  match ← Db.put (.scan_due fire) { fire.event with reminder_fired := true } with
  | .error e => return .error e
  | .ok () =>
    await (.publish_due fire)
    if notify_enabled then
      let _ ← await (.notify_send (reminder_message fire now))
      return .ok ()
    else return .ok ()

def fire_all (notify_enabled : Bool) (now : Int64) : List DueFire → Act (Except String Unit)
  | [] => return .ok ()
  | fire :: fires => do
    match ← fire_due notify_enabled now fire with
    | .error e => return .error e
    | .ok () => fire_all notify_enabled now fires

/-- How many reminders a scan has fired. -/
def scan_due (notify_enabled : Bool) (now : Int64) : Act (Except String Nat) := do
  match ← Db.list with
  | .error e => return .error e
  | .ok events =>
    let fires := due_events events now
    match ← fire_all notify_enabled now fires with
    | .error e => return .error e
    | .ok () => return .ok fires.length

/-! ## Tasks -/

/-- What the serve loop spawns a task for. -/
inductive Spawn where
  | tick
  | request (params : Params)

structure Config where
  notify_enabled : Bool
  /-- How many turns an expansion may take before the task counts as hanging. -/
  fuel : Nat

def Spawn.task (c : Crates) (config : Config) : Spawn → Act Unit
  | .tick => do
    let now ← now_ms
    let _ ← scan_due config.notify_enabled now
    return ()
  | .request params => do
    match ← handle_action c config.fuel params with
    | none => return ()
    | some (.error e) => await (.reply (.error e))
    | some (.ok result) =>
      await (.reply (.ok result.data))
      match result.event with
      | some event => await (.publish_changed event)
      | none => return ()

end Calendar
