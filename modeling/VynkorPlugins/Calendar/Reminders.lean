import VynkorPlugins.Calendar.World

/-!
# Reminders of one event

The tasks over a world that notes what each of them has last read of one event, what the updates have made
of it, and how often its reminder was published.
-/

namespace Calendar

open Async

/-- What an update can name, with the flag and the stamp taken away. -/
def EventDoc.content (doc : EventDoc) : EventDoc :=
  { doc with reminder_fired := false, updated_at_ms := 0 }

structure Watched where
  world : World
  /-- What each task has last read of the event. -/
  copies : Nat → Option EventDoc
  /-- What the updates and deletions that were done have made of the event. -/
  expected : Option EventDoc
  /-- The scans that have marked the event and have not published its reminder yet. -/
  marked : List Nat
  /-- How often the reminder was published since the flag was last cleared. -/
  published : Nat

namespace Watched

variable (id : String) (s : Watched)

def content : Option EventDoc := s.world.docs[id]?.map EventDoc.content

def reads (i : Nat) (found : Option EventDoc) : Watched :=
  { s with copies := Function.update s.copies i found }

/-- An update was done. -/
def updates (patch : EventPatch) (times_changed : Bool) : Watched :=
  { s with
    expected := s.expected.map patch.merge
    published := if times_changed then 0 else s.published }

/-- A call that is answered is noted. -/
def note (i : Nat) : (e : Eff) → e.Answer → Watched
  | .db_batch_get _, .ok docs => s.reads i (docs.find? fun doc => doc.id = id)
  | .db_get id', .ok found => if id' = id then s.reads i found else s
  | .db_set (.event_update patch times_changed) doc, _ =>
    if doc.id = id ∧ s.world.fate.done = true then s.updates patch times_changed else s
  | .db_set (.scan_due _) doc, .ok _ =>
    if doc.id = id then { s with marked := i :: s.marked } else s
  | .db_delete id', _ =>
    if id' = id ∧ s.world.fate.done = true then { s with expected := none } else s
  | .publish_due fire, _ =>
    if fire.event.id = id then
      { s with marked := s.marked.erase i, published := s.published + 1 }
    else s
  | _, _ => s

/-- The reminder is published at most once after the flag was cleared, and what is stored is what the
    updates and deletions have made of the event. -/
structure Honoured : Prop where
  once : s.published ≤ 1
  kept : s.content id = s.expected

end Watched

def HandleWatched (id : String) (i : Nat) (s : Watched) (e : Eff) (r : e.Answer) (s' : Watched) : Prop :=
  Handle i s.world e r s'.world ∧ s' = { s.note id i e r with world := s'.world }

def TurnWatched (s : Watched) (l : Int64 × Fate) (s' : Watched) : Prop :=
  s' = { s with world := s.world.turn l.1 l.2 }

abbrev WatchedTasks := Pool Nat Eff Eff.Answer Unit Watched

abbrev WatchedStep (id : String) : WatchedTasks → TaskLabel → WatchedTasks → Prop :=
  PoolStep (HandleWatched id) TurnWatched

/-- No task has begun. -/
def WatchedTasks.start (c : Crates) (config : Config) (spawn : Nat → Spawn) (id : String)
    (world : World) : WatchedTasks where
  tasks i := (spawn i).task c config
  world :=
    { world
      copies _ := none
      expected := world.docs[id]?.map EventDoc.content
      marked := []
      published := 0 }

/-- The task creates no events. -/
def Spawn.Keeps : Spawn → Prop
  | .request (.event_create _) | .request (.calendar_ics_import _) => False
  | _ => True

/-- The document of the event is written only by a task whose copy is still what is stored, and its flag
    is not cleared between the mark of a scan and the reminder. -/
def Unraced (id : String) (s : Watched) : TaskLabel → Prop
  | .act i (.db_set (.event_update _ times_changed) doc) _ =>
    doc.id = id → s.world.fate.done = true →
      s.copies i = s.world.docs[id]? ∧ (times_changed = true → s.marked = [])
  | .act i (.db_set _ doc) _ =>
    doc.id = id → s.world.fate.done = true → s.copies i = s.world.docs[id]?
  | _ => True

instance (id : String) (s : Watched) (l : TaskLabel) : Decidable (Unraced id s l) := by
  unfold Unraced
  split <;> infer_instance

/-! ## Runs that are computed -/

def answerWatched (id : String) (cond : Watched → TaskLabel → Prop) [∀ s l, Decidable (cond s l)]
    (p : WatchedTasks) : TaskRequest → Option (TaskLabel × WatchedTasks)
  | .act i =>
    match p.tasks i with
    | .done _ => none
    | .call e k =>
      let served := p.world.world.serve e
      if cond p.world (.act i e served.1) then
        some (.act i e served.1,
          { tasks := Function.update p.tasks i (k served.1)
            world := { p.world.note id i e served.1 with world := served.2 } })
      else none
  | .turn clock fate =>
    if cond p.world (.env (clock, fate)) then
      some (.env (clock, fate), { p with world := { p.world with world := p.world.world.turn clock fate } })
    else none

theorem watchedStep_answerWatched {id : String} {cond : Watched → TaskLabel → Prop}
    [∀ s l, Decidable (cond s l)] {p p' : WatchedTasks} {a : TaskRequest} {l : TaskLabel}
    (h : answerWatched id cond p a = some (l, p')) :
    Transition.Where (fun p l => cond p.world l) (WatchedStep id) p l p' := by
  unfold answerWatched at h
  split at h
  · rename_i i
    split at h
    · cases h
    · rename_i e k htask
      simp only at h
      split_ifs at h with hc
      obtain ⟨rfl, rfl⟩ := Prod.mk.inj (Option.some.inj h)
      exact ⟨.act htask ⟨rfl, rfl⟩, hc⟩
  · rename_i clock fate
    split_ifs at h with hc
    obtain ⟨rfl, rfl⟩ := Prod.mk.inj (Option.some.inj h)
    exact ⟨.env rfl, hc⟩

end Calendar

/-!
## Valid events

What `event_create` demands of an event.
-/

namespace Calendar

def ValidTitle (title : String) : Prop :=
  Rust.trim title ≠ "" ∧ title.utf8ByteSize ≤ MAX_TITLE_BYTES

def ValidDescription (description : String) : Prop :=
  description.utf8ByteSize ≤ MAX_DESCRIPTION_BYTES

def ValidRemind (remind_before_ms : Int64) : Prop :=
  0 ≤ remind_before_ms ∧ remind_before_ms ≤ MAX_REMIND_BEFORE_MS

structure ValidTags (tags : List String) : Prop where
  nodup : tags.Nodup
  length : tags.length ≤ MAX_TAGS
  tag : ∀ tag ∈ tags, tag ≠ "" ∧ tag.utf8ByteSize ≤ MAX_TAG_BYTES

structure EventDoc.Valid (doc : EventDoc) : Prop where
  title : ValidTitle doc.title
  description : ValidDescription doc.description
  start : 0 < doc.start_ms
  end_ms : ∀ end_ms ∈ doc.end_ms, doc.start_ms ≤ end_ms
  remind : ∀ remind ∈ doc.remind_before_ms, ValidRemind remind
  tags : ValidTags doc.tags

/-- What an import stores of an occurrence is what `event_create` would accept. -/
structure ParsedEvent.Fits (event : ParsedEvent) (start_ms : Int64) : Prop where
  title : ValidTitle event.title
  description : ValidDescription event.description
  start : 0 < start_ms
  end_ms : ∀ end_ms ∈ event.endOf start_ms, start_ms ≤ end_ms
  remind : ∀ remind ∈ event.remind_before_ms, ValidRemind remind

/-- A patch has no negative reminder, and an occurrence that is imported fits. -/
def Writer.Sound : Writer → Prop
  | .event_update patch _ => ∀ remind ∈ patch.remind_before_ms, 0 ≤ remind
  | .import_ics event start_ms => event.Fits start_ms
  | .event_create | .scan_due _ => True

/-- The writes that are done are sound. -/
def SoundWrites (w : World) : TaskLabel → Prop
  | .act _ (.db_set writer _) _ => w.fate.done = true → writer.Sound
  | _ => True

def World.Valid (w : World) : Prop := ∀ (id : String) (doc : EventDoc), w.docs[id]? = some doc → doc.Valid

instance (title : String) : Decidable (ValidTitle title) := by
  unfold ValidTitle
  infer_instance

instance (description : String) : Decidable (ValidDescription description) := by
  unfold ValidDescription
  infer_instance

instance (remind_before_ms : Int64) : Decidable (ValidRemind remind_before_ms) := by
  unfold ValidRemind
  infer_instance

instance (event : ParsedEvent) (start_ms : Int64) : Decidable (event.Fits start_ms) :=
  have _hend (o : Option Int64) : Decidable (∀ end_ms ∈ o, start_ms ≤ end_ms) :=
    Option.decidableForallMem o
  have _hremind (o : Option Int64) : Decidable (∀ remind ∈ o, ValidRemind remind) :=
    Option.decidableForallMem o
  decidable_of_iff
    (ValidTitle event.title ∧ ValidDescription event.description ∧ 0 < start_ms ∧
      (∀ end_ms ∈ event.endOf start_ms, start_ms ≤ end_ms) ∧
      ∀ remind ∈ event.remind_before_ms, ValidRemind remind)
    ⟨fun ⟨h₁, h₂, h₃, h₄, h₅⟩ => ⟨h₁, h₂, h₃, h₄, h₅⟩, fun h => ⟨h.1, h.2, h.3, h.4, h.5⟩⟩

instance (writer : Writer) : Decidable writer.Sound :=
  match writer with
  | .event_create => .isTrue trivial
  | .scan_due _ => .isTrue trivial
  | .event_update patch _ => Option.decidableForallMem patch.remind_before_ms
  | .import_ics event start_ms => inferInstanceAs (Decidable (event.Fits start_ms))

instance (w : World) (l : TaskLabel) : Decidable (SoundWrites w l) := by
  unfold SoundWrites
  split <;> infer_instance

end Calendar
