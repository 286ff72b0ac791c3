import VynkorPlugins.Calendar.World

/-!
# Imported events

What an import is to leave in the store.
-/

namespace Calendar

/-- The ids of the stored events are those that the counter has given out. -/
def World.Counted (w : World) : Prop :=
  ∀ (id : String) (doc : EventDoc), w.docs[id]? = some doc → ∃ n ≤ w.next_id, id = toString n

/-- What stays of an event from its creation on. -/
structure Identity where
  id : String
  created_at_ms : Int64
  ics_uid : Option String

def EventDoc.identity (doc : EventDoc) : Identity where
  id := doc.id
  created_at_ms := doc.created_at_ms
  ics_uid := doc.ics_uid

/-- The event of an occurrence is stored. -/
def World.Holds (w : World) (uid : String) (start_ms : Int64) (doc : EventDoc) : Prop :=
  w.docs[doc.id]? = some doc ∧ doc.ics_uid = some uid ∧ doc.start_ms = start_ms

/-- The occurrences of an event in the window of an import. -/
def ParsedEvent.starts (event : ParsedEvent) (fuel : Nat) (now : Int64) : List Int64 :=
  (occurrences fuel event (window_start now) (window_end now)).getD []

/-- Each occurrence in the window is stored once. -/
def Materialised (fuel : Nat) (now : Int64) (parsed : List ParsedEvent) (w : World) : Prop :=
  ∀ event ∈ parsed, ∀ start_ms ∈ event.starts fuel now, ∃! doc, w.Holds event.uid start_ms doc

/-- A document without its last stamp. -/
def EventDoc.unstamped (doc : EventDoc) : EventDoc := { doc with updated_at_ms := 0 }

/-- Nothing but the last stamps is changed. -/
structure World.Restamped (w w' : World) : Prop where
  next_id : w'.next_id = w.next_id
  docs : ∀ id : String, w'.docs[id]?.map EventDoc.unstamped = w.docs[id]?.map EventDoc.unstamped

/-- No event has two different occurrences in the window. -/
def OneOccurrence (fuel : Nat) (now : Int64) (parsed : List ParsedEvent) : Prop :=
  ∀ event ∈ parsed, ∀ s ∈ event.starts fuel now, ∀ s' ∈ event.starts fuel now, s = s'

/-! ## Imports that are rejected -/

/-- The payload is refused before anything is read. -/
def Malformed (c : Crates) (ics_base64 e : String) : Prop :=
  parse_request c (.calendar_ics_import ics_base64) = .error e ∨
    parse_request c (.calendar_ics_import ics_base64) = .ok (.Import ics_base64) ∧
      decode_ics c ics_base64 = .error e

/-- A document tells of an occurrence. -/
structure EventDoc.Shows (doc : EventDoc) (event : ParsedEvent) (start_ms : Int64) : Prop where
  title : doc.title = event.title
  description : doc.description = event.description
  start : doc.start_ms = start_ms
  end_ms : doc.end_ms = event.endOf start_ms
  all_day : doc.all_day = event.all_day
  remind_before_ms : doc.remind_before_ms = event.remind_before_ms

/-- A document stands under an id that was given out meanwhile, or in the place of an event with its
    UID. -/
def World.Placed (w w' : World) (uid id : String) (doc : EventDoc) : Prop :=
  (∃ n, w.next_id < n ∧ n ≤ w'.next_id ∧ id = toString n) ∨
    (uid ≠ "" ∧ doc.ics_uid = some uid ∧
      ∃ old : EventDoc, w.docs[id]? = some old ∧ old.ics_uid = some uid)

/-- Each event is as it was, or tells of an occurrence in the window. -/
def World.OnlyImported (fuel : Nat) (now : Int64) (parsed : List ParsedEvent) (w w' : World) : Prop :=
  ∀ id : String, w'.docs[id]? = w.docs[id]? ∨
    ∃ event ∈ parsed, ∃ start_ms ∈ event.starts fuel now, ∃ doc : EventDoc,
      w'.docs[id]? = some doc ∧ doc.Shows event start_ms ∧ w.Placed w' event.uid id doc

end Calendar

/-!
## Events that are rescheduled

What a call that changes an event is to do to the flag of its reminder, and the occurrences that have
been stored by an import, which the world keeps beside the store.
-/

namespace Calendar

open Async

/-- The instant of the reminder. -/
def EventDoc.remind_at (doc : EventDoc) : Option Int :=
  doc.remind_before_ms.map fun lead => doc.start_ms.toInt - lead.toInt

/-- A new instant is reminded of, and what has been reminded of stays so where nothing is rescheduled. -/
structure Rearmed (doc doc' : EventDoc) : Prop where
  moved : ∀ t, doc'.remind_at = some t → doc.remind_at ≠ some t → doc'.reminder_fired = false
  kept : doc'.start_ms = doc.start_ms → doc'.end_ms = doc.end_ms →
    doc'.remind_before_ms = doc.remind_before_ms → doc'.rrule = doc.rrule → doc'.title = doc.title →
      doc'.reminder_fired = doc.reminder_fired

/-! ## Calls -/

/-- The store, and the occurrences that the call has stored so far, with the ids of their documents. -/
structure Logged where
  world : World
  stored : List (String × ParsedEvent × Int64)

def Eff.log (stored : List (String × ParsedEvent × Int64)) (fate : Fate) :
    Eff → List (String × ParsedEvent × Int64)
  | .db_set (.import_ics event start_ms) doc =>
    if fate.done = true then stored ++ [(doc.id, event, start_ms)] else stored
  | _ => stored

/-- A call while no other task moves: at any clock, and with any fate. -/
def LoggedAlone (s : Logged) (e : Eff) (r : e.Answer) (s' : Logged) : Prop :=
  ∃ clock fate, (s.world.turn clock fate).serve e = (r, s'.world) ∧ s'.stored = e.log s.stored fate

/-- The occurrences that were stored in the place of an event. -/
def Logged.onto (s : Logged) (id : String) : List (ParsedEvent × Int64) :=
  s.stored.filterMap fun row => if row.1 = id then some row.2 else none

/-! ## Where an import rearms -/

/-- An occurrence does not move the event, nor rename it. -/
def SamePlace (doc : EventDoc) (r : ParsedEvent × Int64) : Prop :=
  r.2 = doc.start_ms ∧ r.1.title = doc.title

instance (doc : EventDoc) (r : ParsedEvent × Int64) : Decidable (SamePlace doc r) := by
  unfold SamePlace
  infer_instance

/-- An event was not reminded of; or the occurrences stored in its place all have its start and its
    title, and the last one has its lead or none; or they do not, and the last one has another start,
    title, end or lead. -/
def Rearms (doc : EventDoc) (rs : List (ParsedEvent × Int64)) : Prop :=
  doc.reminder_fired = true → ∀ last ∈ rs.getLast?,
    if ∀ r ∈ rs, SamePlace doc r then
      last.1.remind_before_ms = none ∨ last.1.remind_before_ms = doc.remind_before_ms
    else
      ¬ (SamePlace doc last ∧ last.1.endOf last.2 = doc.end_ms ∧
        last.1.remind_before_ms = doc.remind_before_ms)

instance (doc : EventDoc) (rs : List (ParsedEvent × Int64)) : Decidable (Rearms doc rs) := by
  unfold Rearms
  refine @instDecidableForall _ _ inferInstance ?_
  exact @Option.decidableForallMem _ _ (fun _ => inferInstance) _

/-! ## Calls that are computed -/

/-- A call that succeeds. -/
def Logged.serveOk (clock : Int64) (e : Eff) (s : Logged) : e.Answer × Logged :=
  let served := World.serveOk clock e s.world
  (served.1, { world := served.2, stored := e.log s.stored .ok })

theorem exec_logged_serveOk {α : Type} (clock : Int64) (m : Act α) (s : Logged) :
    Exec LoggedAlone s m (run (Logged.serveOk clock) m s).1 (run (Logged.serveOk clock) m s).2 :=
  exec_run (fun _ _ => ⟨clock, .ok, rfl, rfl⟩) m s

end Calendar
