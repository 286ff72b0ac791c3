import Mathlib.Data.List.Sort
import VynkorPlugins.Base.Pages
import VynkorPlugins.Calendar.Imports

/-!
# Listed events

What `event_list` answers (`lib.rs`, `request.rs`), with the occurrences of the recurring events.
-/

namespace Calendar

/-! ## Requests -/

def DEFAULT_LIMIT : Nat := 100
def MAX_LIMIT : Nat := 500

structure ListParams where
  from_ms : Option Int64
  to_ms : Option Int64
  tag : Option String
  limit : Option Nat
  offset : Option Nat

/-- A request after its checks. -/
structure ListRequest where
  from_ms : Option Int64
  to_ms : Option Int64
  tag : Option String
  limit : Nat
  offset : Nat

def parse_list (p : ListParams) : Except String ListRequest := do
  let limit := p.limit.getD DEFAULT_LIMIT
  Rust.reject (limit = 0 ∨ MAX_LIMIT < limit)
    ("params.limit must be between 1 and " ++ toString MAX_LIMIT)
  return {
    from_ms := p.from_ms
    to_ms := p.to_ms
    tag := (p.tag.map Rust.trim).filter (· ≠ "")
    limit
    offset := p.offset.getD 0 }

/-! ## Occurrences -/

/-- What the plugin takes from the crates `rrule` and `chrono` to expand a recurrence. -/
structure RRules where
  RRuleSet : Type
  /-- `RRuleSet::from_str` -/
  from_str : String → Option RRuleSet
  /-- `RRuleSet::all`, as milliseconds -/
  all : RRuleSet → (limit : Nat) → Option (List Int64)
  /-- The time in milliseconds, or the epoch where `chrono` has no such time, as
      `%Y%m%dT%H%M%SZ`. -/
  format : Int64 → String

def RRules.set (r : RRules) (master : EventDoc) (rrule : String) : Option r.RRuleSet :=
  r.from_str ("DTSTART:" ++ r.format master.start_ms ++ "\nRRULE:" ++ rrule)

/-- The document of an occurrence. -/
def EventDoc.occurrence (master : EventDoc) (ms : Int64) : EventDoc :=
  let duration := master.end_ms.map fun end_ms => end_ms - master.start_ms
  { master with
    id := master.id ++ "#" ++ toString ms
    start_ms := ms
    end_ms := duration.map fun d => ms + d }

/-- Where nothing comes of the recurrence, the document stands for itself. -/
def expand_rrule_set (r : RRules) (master : EventDoc) (rrule : String)
    (window_from window_to : Int64) : List EventDoc :=
  match r.set master rrule with
  | none => [master]
  | some set =>
    match r.all set 50 with
    | none => [master]
    | some dates =>
      let dates := dates.filter fun ms => ¬ (ms < window_from ∨ window_to < ms)
      let out := (dates.map master.occurrence).take 50
      if out = [] then [master] else out

/-! ## The list -/

def id_num (e : EventDoc) : UInt64 := (Rust.parseU64 e.id).getD 0

/-- The order of the answer. -/
def ListedLe (a b : EventDoc) : Prop :=
  a.start_ms < b.start_ms ∨ a.start_ms = b.start_ms ∧ id_num a ≤ id_num b

instance : DecidableRel ListedLe := fun _ _ => inferInstanceAs (Decidable (_ ∨ _))

def Tagged (tag : Option String) (e : EventDoc) : Prop := ∀ t, tag = some t → t ∈ e.tags

instance (tag : Option String) (e : EventDoc) : Decidable (Tagged tag e) :=
  Option.decidableForallMem (p := fun t => t ∈ e.tags) _

/-- `from_ms` and `to_ms` where they are given. -/
def InRange (from_ms to_ms : Option Int64) (ms : Int64) : Prop :=
  (∀ t, from_ms = some t → t ≤ ms) ∧ ∀ t, to_ms = some t → ms ≤ t

instance (from_ms to_ms : Option Int64) (ms : Int64) : Decidable (InRange from_ms to_ms ms) := by
  have hfrom : Decidable (∀ t, from_ms = some t → t ≤ ms) :=
    Option.decidableForallMem (p := fun t => t ≤ ms) _
  have hto : Decidable (∀ t, to_ms = some t → ms ≤ t) :=
    Option.decidableForallMem (p := fun t => ms ≤ t) _
  unfold InRange
  infer_instance

/-- The two readings of the clock that are made for a recurring event. -/
abbrev Readings := EventDoc → Int64 × Int64

/-- The window in which a recurring event is expanded. -/
def window (q : ListRequest) (clock : Readings) (e : EventDoc) : Int64 × Int64 :=
  (q.from_ms.getD ((clock e).1 - 24 * 3600 * 1000),
    q.to_ms.getD ((clock e).2 + 90 * 24 * 3600 * 1000))

/-- What is listed of one stored event. -/
def expand (r : RRules) (q : ListRequest) (clock : Readings) (e : EventDoc) : List EventDoc :=
  match e.rrule with
  | some rrule =>
    let w := window q clock e
    (expand_rrule_set r e rrule w.1 w.2).filter fun occ => Tagged q.tag occ
  | none => if InRange q.from_ms q.to_ms e.start_ms ∧ Tagged q.tag e then [e] else []

structure Listing where
  events : List EventDoc
  total : Nat

def event_list (r : RRules) (clock : Readings) (events : List EventDoc) (q : ListRequest) :
    Listing :=
  let expanded := (events.flatMap (expand r q clock)).insertionSort ListedLe
  { events := (expanded.drop q.offset).take q.limit, total := expanded.length }

/-! ## What is to be listed -/

/-- The crate gives the first occurrences of a sequence that is in order. -/
structure RRules.InOrder (r : RRules) (occurrence : r.RRuleSet → Nat → Option Int64) : Prop where
  all : ∀ set limit dates, r.all set limit = some dates →
    dates = (List.range limit).filterMap (occurrence set)
  strict : ∀ set i j a b, i < j → occurrence set i = some a → occurrence set j = some b → a < b

/-- The stored event, or one of its occurrences, is in the range and has the tag. -/
inductive Meant (r : RRules) (occurrence : r.RRuleSet → Nat → Option Int64)
    (events : List EventDoc) (q : ListRequest) : EventDoc → Prop
  | plain {e : EventDoc} (he : e ∈ events) (hplain : e.rrule = none)
      (hrange : InRange q.from_ms q.to_ms e.start_ms) (htag : Tagged q.tag e) :
      Meant r occurrence events q e
  | occurrence {e : EventDoc} {rrule : String} {set : r.RRuleSet} {n : Nat} {ms : Int64}
      (he : e ∈ events) (hrrule : e.rrule = some rrule) (hset : r.set e rrule = some set)
      (hn : occurrence set n = some ms) (hrange : InRange q.from_ms q.to_ms ms)
      (htag : Tagged q.tag e) : Meant r occurrence events q (e.occurrence ms)

/-- There is one list of what is meant, each once and sorted by its start; every answer is a page of
    it, and pages with consecutive offsets are all of it. -/
structure Answers (r : RRules) (occurrence : r.RRuleSet → Nat → Option Int64) (clock : Readings)
    (events : List EventDoc) (q : ListRequest) (listed : List EventDoc) : Prop where
  meant : ∀ e, e ∈ listed ↔ Meant r occurrence events q e
  once : listed.Nodup
  sorted : listed.Pairwise fun a b => a.start_ms ≤ b.start_ms
  in_range : ∀ limit offset, ∀ e ∈ (event_list r clock events { q with limit, offset }).events,
    InRange q.from_ms q.to_ms e.start_ms ∧ Tagged q.tag e
  total : ∀ limit offset, (event_list r clock events { q with limit, offset }).total = listed.length
  pages : ∀ limit, 0 < limit → ∃ n, (List.range n).flatMap (fun i =>
    (event_list r clock events { q with limit, offset := i * limit }).events) = listed

/-- Something of the recurrence is among its first 50 occurrences and in the window, and so is all of
    it that is in the range. -/
def Expands (r : RRules) (occurrence : r.RRuleSet → Nat → Option Int64) (q : ListRequest)
    (clock : Readings) (e : EventDoc) (rrule : String) : Prop :=
  let w := window q clock e
  ∃ set, r.set e rrule = some set ∧ (r.all set 50).isSome ∧
    (∃ n ms, n < 50 ∧ occurrence set n = some ms ∧ w.1 ≤ ms ∧ ms ≤ w.2) ∧
    ∀ n ms, occurrence set n = some ms → InRange q.from_ms q.to_ms ms →
      n < 50 ∧ w.1 ≤ ms ∧ ms ≤ w.2

/-- The stored events, as `Db::list` gives them. -/
def World.events (w : World) : List EventDoc := w.rows w.docs.keys

end Calendar
