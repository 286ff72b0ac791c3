import VynkorPlugins.Base.Rust

/-!
# Events

The documents of the `calendar` plugin (`store.rs`), the checks of its requests (`request.rs`) and the
reminders that are due (`reminders.rs`).
-/

namespace Calendar

structure EventDoc where
  id : String
  title : String
  description : String
  start_ms : Int64
  end_ms : Option Int64
  all_day : Bool
  remind_before_ms : Option Int64
  reminder_fired : Bool
  tags : List String
  ics_uid : Option String
  rrule : Option String
  created_at_ms : Int64
  updated_at_ms : Int64
deriving DecidableEq

structure NewEvent where
  title : String
  description : String
  start_ms : Int64
  end_ms : Option Int64
  all_day : Bool
  remind_before_ms : Option Int64
  tags : List String
  rrule : Option String

/-- A patch of the recurrence takes it away where it is `some none`. -/
structure EventPatch where
  title : Option String
  description : Option String
  start_ms : Option Int64
  end_ms : Option Int64
  all_day : Option Bool
  remind_before_ms : Option Int64
  tags : Option (List String)
  rrule : Option (Option String)

inductive CalendarRequest where
  | Create (new : NewEvent)
  | Get (id : String)
  | Update (id : String) (patch : EventPatch)
  | Delete (id : String)
  | Import (ics_base64 : String)
  | Export

/-! ## Requests -/

/-- The members of the params are those of the event or of the patch, not yet checked. -/
inductive Params where
  | event_create (p : NewEvent)
  | event_get (id : String)
  | event_update (id : String) (p : EventPatch)
  | event_delete (id : String)
  | calendar_ics_import (ics_base64 : String)
  | calendar_ics_export
  | other (action : String)

def MAX_TITLE_BYTES : Nat := 512
def MAX_DESCRIPTION_BYTES : Nat := 4096
def MAX_TAGS : Nat := 32
def MAX_TAG_BYTES : Nat := 64
def MAX_RRULE_BYTES : Nat := 256
def MAX_REMIND_BEFORE_MS : Int64 := 315360000000
def MAX_ICS_BASE64_BYTES : Nat := 8 * 1024 * 1024

open Rust (reject checked)

def check_size (field value : String) (max : Nat) : Except String Unit :=
  reject (max < value.utf8ByteSize)
    ("params." ++ field ++ " exceeds " ++ toString max ++ " bytes (got " ++
      toString value.utf8ByteSize ++ ")")

def require_nonempty_id (id : String) : Except String String :=
  if id = "" then .error "params.id must be a non-empty string" else .ok id

def validate_start (start_ms : Int64) : Except String Unit :=
  reject (start_ms ≤ 0) "params.start_ms must be a positive unix-milliseconds timestamp"

def validate_remind_cap (remind_before_ms : Int64) : Except String Unit :=
  reject (MAX_REMIND_BEFORE_MS < remind_before_ms)
    ("params.remind_before_ms exceeds the " ++ toString MAX_REMIND_BEFORE_MS ++ " ms cap")

def validate_times (start_ms : Int64) (end_ms remind_before_ms : Option Int64) :
    Except String Unit := do
  validate_start start_ms
  let _ ← checked (fun end_ms => reject (end_ms < start_ms) "params.end_ms must be >= params.start_ms")
    end_ms
  let _ ← checked (fun rb => do
    reject (rb < 0) "params.remind_before_ms must be >= 0"
    validate_remind_cap rb) remind_before_ms

/-- The tags that are kept so far, and the ones to come. -/
def sanitize_from (out : List String) : List String → Except String (List String)
  | [] => .ok out
  | tag :: raw =>
    let tag := Rust.trim tag
    if tag = "" then sanitize_from out raw
    else if MAX_TAG_BYTES < tag.utf8ByteSize then
      .error ("params.tags contains a tag longer than " ++ toString MAX_TAG_BYTES ++ " bytes")
    else if tag ∈ out then sanitize_from out raw
    else if out.length = MAX_TAGS then
      .error ("params.tags exceeds " ++ toString MAX_TAGS ++ " unique tags")
    else sanitize_from (out ++ [tag]) raw

def sanitize_tags (raw : List String) : Except String (List String) :=
  sanitize_from [] raw

/-- What the plugin takes from the crates `rrule` and `base64`. -/
structure Crates where
  /-- `RRuleSet::from_str` -/
  rrule_from_str : String → Except String Unit
  /-- `decode` of the standard engine -/
  base64_decode : String → Except String ByteArray

def validate_rrule (c : Crates) (rrule : String) : Except String String := do
  let s := Rust.trim rrule
  reject (s = "") "params.rrule must not be empty when present"
  reject (MAX_RRULE_BYTES < s.utf8ByteSize)
    ("params.rrule exceeds " ++ toString MAX_RRULE_BYTES ++ " bytes")
  reject (!Rust.contains s "FREQ=") "params.rrule must contain FREQ= (e.g. FREQ=WEEKLY;BYDAY=MO)"
  match c.rrule_from_str ("DTSTART:19700101T000000Z\nRRULE:" ++ s) with
  | .error e => .error ("params.rrule invalid: " ++ e)
  | .ok () => .ok s

def EventPatch.isEmpty (p : EventPatch) : Bool :=
  p.title.isNone && p.description.isNone && p.start_ms.isNone && p.end_ms.isNone &&
    p.all_day.isNone && p.remind_before_ms.isNone && p.tags.isNone && p.rrule.isNone

def check_title (title : String) : Except String Unit := do
  reject (Rust.trim title = "") "params.title must be non-empty"
  check_size "title" title MAX_TITLE_BYTES

/-- A blank recurrence takes the stored one away. -/
def validate_rrule_patch (c : Crates) : Option String → Except String (Option String)
  | none => .ok none
  | some s => if Rust.trim s = "" then .ok none else (validate_rrule c s).map some

def parse_create (c : Crates) (p : NewEvent) : Except String NewEvent := do
  reject (Rust.trim p.title = "") "event_create requires a non-empty title"
  check_size "title" p.title MAX_TITLE_BYTES
  check_size "description" p.description MAX_DESCRIPTION_BYTES
  validate_times p.start_ms p.end_ms p.remind_before_ms
  let rrule ← checked (validate_rrule c) p.rrule
  let tags ← sanitize_tags p.tags
  return { p with tags, rrule }

/-- The end of an update and a negative reminder are not checked here. -/
def parse_patch (c : Crates) (p : EventPatch) : Except String EventPatch := do
  let rrule ← checked (validate_rrule_patch c) p.rrule
  reject { p with rrule }.isEmpty
    ("event_update requires at least one of title, description, start_ms, end_ms, all_day, " ++
      "remind_before_ms, tags, rrule")
  let _ ← checked check_title p.title
  let _ ← checked (fun d => check_size "description" d MAX_DESCRIPTION_BYTES) p.description
  let _ ← checked validate_start p.start_ms
  let _ ← checked validate_remind_cap p.remind_before_ms
  let tags ← checked sanitize_tags p.tags
  return { p with tags, rrule }

def parse_request (c : Crates) : Params → Except String CalendarRequest
  | .event_create p => (parse_create c p).map .Create
  | .event_get id => (require_nonempty_id id).map .Get
  | .event_update id p => do
    let id ← require_nonempty_id id
    return .Update id (← parse_patch c p)
  | .event_delete id => (require_nonempty_id id).map .Delete
  | .calendar_ics_import ics_base64 => do
    reject (MAX_ICS_BASE64_BYTES < ics_base64.utf8ByteSize)
      ("params.ics_base64 exceeds " ++ toString MAX_ICS_BASE64_BYTES ++ " bytes")
    return .Import ics_base64
  | .calendar_ics_export => .ok .Export
  | .other action => .error ("unknown action: " ++ action)

/-! ## Updates -/

namespace EventPatch

/-- The member of the document, unless the patch names another one. -/
def set {α : Type} (patched : Option α) (stored : α) : α := patched.getD stored

/-- The patch names a value that the document does not have. -/
def changes {α : Type} [DecidableEq α] (patched : Option α) (stored : α) : Bool :=
  patched.any fun v => stored ≠ v

/-- Any change to the time shape deserves a new reminder. -/
def times_changed (p : EventPatch) (doc : EventDoc) : Bool :=
  changes p.start_ms doc.start_ms || changes (p.end_ms.map some) doc.end_ms ||
    changes (p.remind_before_ms.map some) doc.remind_before_ms || changes p.rrule doc.rrule

/-- The members that the patch names. -/
def merge (p : EventPatch) (doc : EventDoc) : EventDoc :=
  { doc with
    title := set p.title doc.title
    description := set p.description doc.description
    start_ms := set p.start_ms doc.start_ms
    end_ms := set (p.end_ms.map some) doc.end_ms
    all_day := set p.all_day doc.all_day
    remind_before_ms := set (p.remind_before_ms.map some) doc.remind_before_ms
    tags := set p.tags doc.tags
    rrule := set p.rrule doc.rrule }

/-- The document after an update, before it is stamped. -/
def apply (p : EventPatch) (doc : EventDoc) : Except String EventDoc := do
  let updated := p.merge doc
  let _ ← checked (fun end_ms =>
    reject (end_ms < updated.start_ms)
      ("resulting end_ms must be >= start_ms (" ++ toString end_ms ++ " < " ++
        toString updated.start_ms ++ ")")) updated.end_ms
  return { updated with reminder_fired := !p.times_changed doc && doc.reminder_fired }

end EventPatch

/-! ## Reminders -/

structure DueFire where
  event : EventDoc
  remind_at_ms : Int64
  late : Bool

/-- `saturating_sub` -/
def saturating_sub (a b : Int64) : Int64 :=
  Int64.ofInt (max (-2 ^ 63) (min (2 ^ 63 - 1) (a.toInt - b.toInt)))

/-- `saturating_add` -/
def saturating_add (a b : Int64) : Int64 :=
  Int64.ofInt (max (-2 ^ 63) (min (2 ^ 63 - 1) (a.toInt + b.toInt)))

/-- The reminder of an event that is due. -/
def due_event (now_ms : Int64) (e : EventDoc) : Option DueFire :=
  match e.remind_before_ms with
  | none => none
  | some lead =>
    if e.reminder_fired then none
    else
      let remind_at := saturating_sub e.start_ms lead
      if now_ms < remind_at then none
      else some { event := e, remind_at_ms := remind_at, late := e.start_ms < now_ms }

def due_events (events : List EventDoc) (now_ms : Int64) : List DueFire :=
  events.filterMap (due_event now_ms)

/-- A reminder that is due is made of an event whose flag is not set. -/
theorem of_due_event {now_ms : Int64} {e : EventDoc} {fire : DueFire}
    (h : due_event now_ms e = some fire) : fire.event = e ∧ e.reminder_fired = false := by
  unfold due_event at h
  split at h
  · cases h
  · dsimp only at h
    split_ifs at h with hfired
    obtain rfl := Option.some.inj h
    exact ⟨rfl, Bool.eq_false_iff.mpr hfired⟩

theorem of_mem_due_events {docs : List EventDoc} {now_ms : Int64} {fire : DueFire}
    (h : fire ∈ due_events docs now_ms) : fire.event ∈ docs ∧ fire.event.reminder_fired = false := by
  obtain ⟨doc, hdoc, hdue⟩ := List.mem_filterMap.mp h
  obtain ⟨rfl, hfired⟩ := of_due_event hdue
  exact ⟨hdoc, hfired⟩

/-- Each event is fired once. -/
theorem nodup_due_events {docs : List EventDoc} {now_ms : Int64}
    (h : (docs.map EventDoc.id).Nodup) :
    ((due_events docs now_ms).map fun fire => fire.event.id).Nodup := by
  induction docs with
  | nil => exact List.nodup_nil
  | cons doc docs ih =>
    rw [List.map_cons, List.nodup_cons] at h
    unfold due_events
    rw [List.filterMap_cons]
    cases hdue : due_event now_ms doc with
    | none => exact ih h.2
    | some fire =>
      rw [List.map_cons, List.nodup_cons]
      refine ⟨fun hmem => ?_, ih h.2⟩
      obtain ⟨fire', hfire', hid⟩ := List.mem_map.mp hmem
      obtain ⟨rfl, -⟩ := of_due_event hdue
      exact h.1 (List.mem_map.mpr ⟨fire'.event, (of_mem_due_events hfire').1, hid⟩)

/-- The division of `i64` cuts toward zero. -/
def reminder_message (fire : DueFire) (now_ms : Int64) : String :=
  if fire.late then fire.event.title ++ " — missed reminder (started earlier)"
  else if fire.event.remind_before_ms = some 0 then fire.event.title ++ " starts now"
  else
    let minutes := (fire.event.start_ms - now_ms) / 60000
    if 1 ≤ minutes then fire.event.title ++ " starts in ~" ++ toString minutes ++ " min"
    else fire.event.title ++ " starts now"

end Calendar
