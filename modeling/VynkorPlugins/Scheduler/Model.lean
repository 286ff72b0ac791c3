import VynkorPlugins.Base.Json
import VynkorPlugins.Base.Rust

/-!
# Schedules

The pure schedule model of the `scheduler` plugin (`model.rs`): what fires and when. The expressions
and the time zones are read by other crates.
-/

namespace Scheduler

inductive Trigger where
  | Once (at_ms : Int64)
  | Cron (expr : String) (tz_offset_min : Int32) (tz : Option String)

inductive Fire where
  | Event (payload : Json)
  | Action (name : String) (params : Json)

structure ScheduleDoc where
  id : String
  name : Option String
  enabled : Bool
  trigger : Trigger
  fire : Fire
  fired_once : Bool
  fire_count : UInt64
  last_fired_ms : Option Int64
  last_error : Option String
  created_at_ms : Int64
  updated_at_ms : Int64

/-- One due schedule. -/
structure DueFire where
  doc : ScheduleDoc
  scheduled_for_ms : Int64
  late : Bool

def Trigger.isOnce : Trigger → Bool
  | .Once _ => true
  | .Cron .. => false

/-! ## Expressions -/

/-- What the plugin takes from the crates `cron`, `chrono` and `chrono-tz`. A zone is an offset east
    in seconds or a named one. -/
structure Crates where
  Schedule : Type
  Tz : Type
  /-- `Schedule::from_str` -/
  from_str : String → Except String Schedule
  /-- `parse::<Tz>` -/
  parse_tz : String → Option Tz
  /-- `timestamp_millis_opt` has a date for these milliseconds. -/
  in_range : Int64 → Bool
  /-- `after(…).next()` -/
  next_after : Schedule → Int32 ⊕ Tz → Int64 → Option Int64

def normalize_cron_expr (expr : String) : String :=
  let fields := Rust.splitWhitespace expr
  if fields.length = 5 then "0 " ++ " ".intercalate fields else " ".intercalate fields

def fixed_offset (tz_offset_min : Int32) : Except String Int32 :=
  if -720 ≤ tz_offset_min ∧ tz_offset_min ≤ 840 then .ok (tz_offset_min * 60)
  else .error ("tz_offset_min out of range (-720..=840): " ++ toString tz_offset_min)

namespace Crates

variable (c : Crates)

def parse_expr (expr : String) : Except String c.Schedule :=
  match c.from_str (normalize_cron_expr expr) with
  | .ok sched => .ok sched
  | .error e => .error ("invalid cron expression " ++ Rust.debug expr ++ ": " ++ e)

def occurrence (sched : c.Schedule) (zone : Int32 ⊕ c.Tz) (after_ms : Int64) :
    Except String (Option Int64) :=
  if c.in_range after_ms then .ok (c.next_after sched zone after_ms)
  else .error ("timestamp out of range: " ++ toString after_ms)

def next_cron_after_ms (expr : String) (tz_offset_min : Int32) (after_ms : Int64) :
    Except String (Option Int64) := do
  let offset ← fixed_offset tz_offset_min
  let sched ← c.parse_expr expr
  c.occurrence sched (.inl offset) after_ms

def next_cron_after_ms_tz (expr tz_str : String) (after_ms : Int64) :
    Except String (Option Int64) := do
  let tz ← match c.parse_tz tz_str with
    | some tz => .ok tz
    | none => .error ("invalid IANA timezone " ++ Rust.debug tz_str)
  let sched ← c.parse_expr expr
  c.occurrence sched (.inr tz) after_ms

/-- What an expression says of the instants after another one; nothing, where it cannot be read. -/
def cron_after (expr : String) (tz_offset_min : Int32) (tz : Option String) (after_ms : Int64) :
    Option Int64 :=
  let res := match tz with
    | some tz_str => c.next_cron_after_ms_tz expr tz_str after_ms
    | none => c.next_cron_after_ms expr tz_offset_min after_ms
  match res with
  | .ok next => next
  | .error _ => none

/-- The earliest instant at which the schedule should fire. -/
def next_fire_ms (doc : ScheduleDoc) : Option Int64 :=
  if !doc.enabled then none
  else
    match doc.trigger with
    | .Once at_ms => if doc.fired_once then none else some at_ms
    | .Cron expr tz_offset_min tz =>
      c.cron_after expr tz_offset_min tz (doc.last_fired_ms.getD doc.created_at_ms)

/-- The fire of a schedule that is due. -/
def due_fire (now_ms : Int64) (doc : ScheduleDoc) : Option DueFire :=
  match c.next_fire_ms doc with
  | none => none
  | some deadline =>
    if now_ms < deadline then none
    else some { doc, scheduled_for_ms := deadline, late := deadline < now_ms }

def due_schedules (docs : List ScheduleDoc) (now_ms : Int64) : List DueFire :=
  docs.filterMap (c.due_fire now_ms)

/-- The crates for the one expression of every minute. -/
def minutely : Crates where
  Schedule := Unit
  Tz := Unit
  from_str expr := if expr = "0 * * * * *" then .ok () else .error "Invalid cron expression."
  parse_tz name := if name = "UTC" then some () else none
  in_range ms := -8334601228800000 ≤ ms && ms ≤ 8210266876799999
  next_after _ _ ms := some (Int64.ofInt ((ms.toInt / 60000 + 1) * 60000))

end Crates

/-! ## Fires -/

def Fire.toJson : Fire → Json
  | .Event payload => .obj [("payload", payload), ("type", .str "event")]
  | .Action name params =>
    .obj [("name", .str name), ("params", params), ("type", .str "action")]

/-- A fire whose marks are made. -/
structure MarkedFire where
  doc : ScheduleDoc
  scheduled_for_ms : Int64
  late : Bool
  fire_count : UInt64

/-- The document with the marks of a fire. -/
def DueFire.marked_doc (fire : DueFire) (now_ms : Int64) : ScheduleDoc :=
  { fire.doc with
    fired_once := fire.doc.trigger.isOnce || fire.doc.fired_once
    fire_count := fire.doc.fire_count + 1
    last_fired_ms := some fire.scheduled_for_ms
    last_error := none
    updated_at_ms := now_ms }

def DueFire.marked (fire : DueFire) (now_ms : Int64) : MarkedFire :=
  let doc := fire.marked_doc now_ms
  { doc, scheduled_for_ms := fire.scheduled_for_ms, late := fire.late, fire_count := doc.fire_count }

/-- What the `fired` event tells. -/
def MarkedFire.envelope (marked : MarkedFire) (payload : Json) : Json :=
  .obj
    [("fire", marked.doc.fire.toJson),
     ("fire_count", .int marked.fire_count.toNat),
     ("late", .bool marked.late),
     ("name", (marked.doc.name.map Json.str).getD .null),
     ("payload", payload),
     ("schedule_id", .str marked.doc.id),
     ("scheduled_for_ms", .int marked.scheduled_for_ms.toInt)]

/-! ## When a schedule is due -/

/-- What the next fire of a schedule depends on. -/
structure Timing where
  enabled : Bool
  trigger : Trigger
  fired_once : Bool
  last_fired_ms : Option Int64
  created_at_ms : Int64

def ScheduleDoc.timing (doc : ScheduleDoc) : Timing where
  enabled := doc.enabled
  trigger := doc.trigger
  fired_once := doc.fired_once
  last_fired_ms := doc.last_fired_ms
  created_at_ms := doc.created_at_ms

/-- A one-shot that has not fired. -/
def ScheduleDoc.armed (doc : ScheduleDoc) : Bool :=
  doc.trigger.isOnce && !doc.fired_once

variable {c : Crates} {doc doc' : ScheduleDoc} {now_ms : Int64} {fire : DueFire}

theorem due_fire_eq_some_iff :
    c.due_fire now_ms doc = some fire ↔
      fire.doc = doc ∧ c.next_fire_ms doc = some fire.scheduled_for_ms ∧
        fire.scheduled_for_ms ≤ now_ms ∧ fire.late = decide (fire.scheduled_for_ms < now_ms) := by
  unfold Crates.due_fire
  cases hnext : c.next_fire_ms doc with
  | none => simp
  | some deadline =>
    obtain ⟨doc', scheduled_for_ms, late⟩ := fire
    by_cases hle : now_ms < deadline
    · simp only [if_pos hle, reduceCtorEq, Option.some.injEq, false_iff, not_and]
      rintro - rfl hle'
      exact absurd hle' (Int64.not_le.mpr hle)
    · simp only [if_neg hle, Option.some.injEq, DueFire.mk.injEq]
      constructor
      · rintro ⟨rfl, rfl, rfl⟩
        exact ⟨rfl, rfl, Int64.not_lt.mp hle, rfl⟩
      · rintro ⟨rfl, rfl, -, hlate⟩
        exact ⟨rfl, rfl, hlate.symm⟩

theorem mem_due_schedules {docs : List ScheduleDoc} :
    fire ∈ c.due_schedules docs now_ms ↔ fire.doc ∈ docs ∧ c.due_fire now_ms fire.doc = some fire := by
  unfold Crates.due_schedules
  rw [List.mem_filterMap]
  constructor
  · rintro ⟨doc, hdoc, hfire⟩
    obtain rfl := (due_fire_eq_some_iff.1 hfire).1
    exact ⟨hdoc, hfire⟩
  · rintro ⟨hdoc, hfire⟩
    exact ⟨fire.doc, hdoc, hfire⟩

/-- Each document is fired once. -/
theorem nodup_due_schedules {docs : List ScheduleDoc} (h : (docs.map ScheduleDoc.id).Nodup) :
    ((c.due_schedules docs now_ms).map fun fire => fire.doc.id).Nodup := by
  induction docs with
  | nil => exact List.nodup_nil
  | cons doc docs ih =>
    rw [List.map_cons, List.nodup_cons] at h
    unfold Crates.due_schedules
    rw [List.filterMap_cons]
    cases hdue : c.due_fire now_ms doc with
    | none => exact ih h.2
    | some fire =>
      rw [List.map_cons, List.nodup_cons]
      refine ⟨fun hmem => ?_, ih h.2⟩
      obtain ⟨fire', hfire', hid⟩ := List.mem_map.mp hmem
      obtain rfl := (due_fire_eq_some_iff.1 hdue).1
      exact h.1 (List.mem_map.mpr ⟨fire'.doc, (mem_due_schedules.mp hfire').1, hid⟩)

/-- A fire of a one-shot is made of a document that has not fired. -/
theorem armed_of_due (h : c.due_fire now_ms doc = some fire) (honce : doc.trigger.isOnce = true) :
    doc.armed = true := by
  obtain ⟨-, hnext, -⟩ := due_fire_eq_some_iff.1 h
  unfold Crates.next_fire_ms at hnext
  unfold ScheduleDoc.armed
  cases htrigger : doc.trigger with
  | Cron expr tz_offset_min tz =>
    rw [htrigger] at honce
    cases honce
  | Once at_ms =>
    rw [htrigger] at hnext
    cases hfired : doc.fired_once with
    | false => rfl
    | true => simp [hfired] at hnext

end Scheduler
