import VynkorPlugins.Base.Async
import VynkorPlugins.Base.Table
import VynkorPlugins.Scheduler.Tasks

/-!
# The scheduler and its database

Any number of tasks over one store of schedules. The clock and the fate of the calls change by
themselves at any time. Beside them the world keeps a history of the run, which no task reads.
-/

namespace Scheduler

open Async

/-- A dispatch of a schedule: the time of its scan, the instant it was scheduled for, and whether its
    mark was stored. -/
structure Dispatch where
  now_ms : Int64
  scheduled_for_ms : Int64
  marked : Bool
deriving DecidableEq

/-- What has happened to each schedule. -/
structure History where
  /-- When each task began. -/
  began : Nat → Option Int64
  /-- The scans that have listed a one-shot as due and have not marked it yet. -/
  listed : String → List Nat
  /-- The scans that have marked a one-shot and have not dispatched it yet. -/
  marked : String → List Nat
  /-- Whether the last mark of a scan was stored. -/
  stored : Nat → Bool
  /-- The dispatches of a one-shot since the last acknowledged `schedule_set`. -/
  fired : String → Nat
  /-- The dispatches of a schedule, the latest one first. -/
  dispatches : String → List Dispatch

def History.empty : History where
  began _ := none
  listed _ := []
  marked _ := []
  stored _ := false
  fired _ := 0
  dispatches _ := []

/-- The documents are stored under their ids. -/
structure World where
  docs : Table String ScheduleDoc
  keyed : ∀ (id : String) (doc : ScheduleDoc), docs[id]? = some doc → doc.id = id
  next_id : Nat
  clock : Int64
  fate : Fate
  history : History

/-- Nothing is stored under another key. -/
theorem World.keyed_empty (id : String) (doc : ScheduleDoc)
    (h : (∅ : Table String ScheduleDoc)[id]? = some doc) : doc.id = id := by
  simp at h

/-- The one-shots among the documents that are due. -/
def one_shots_due (c : Crates) (now_ms : Int64) (docs : List ScheduleDoc) : List String :=
  ((c.due_schedules docs now_ms).filter fun fire => fire.doc.trigger.isOnce).map fun fire => fire.doc.id

/-! ## History -/

namespace History

variable (h : History) (i : Nat)

def read_clock (now_ms : Int64) : History :=
  { h with began := Function.update h.began i (some ((h.began i).getD now_ms)) }

/-- When the task began, as far as it has. -/
def start_ms : Int64 := (h.began i).getD 0

/-- A scan lists the documents. -/
def list (c : Crates) (docs : List ScheduleDoc) : Spawn → History
  | .request _ => h
  | .tick =>
    { h with
      listed := fun id =>
        if id ∈ one_shots_due c (h.start_ms i) docs then i :: h.listed id else h.listed id }

/-- A scan marks a document. -/
def mark (doc : ScheduleDoc) (done : Bool) : History :=
  if doc.trigger.isOnce then
    { h with
      listed := Function.update h.listed doc.id ((h.listed doc.id).erase i)
      marked := Function.update h.marked doc.id (i :: h.marked doc.id)
      stored := Function.update h.stored i done }
  else { h with stored := Function.update h.stored i done }

/-- A request sets a schedule. -/
def set (doc : ScheduleDoc) (acknowledged : Bool) : History :=
  if acknowledged then { h with fired := Function.update h.fired doc.id 0 } else h

def write (doc : ScheduleDoc) (fate : Fate) : Writer → History
  | .schedule_set => h.set doc fate.acknowledged
  | .mark_fired => h.mark i doc fate.done
  | .record_last_error => h

/-- A scan dispatches a schedule. -/
def dispatch (m : MarkedFire) : History :=
  { h with
    marked :=
      if m.doc.trigger.isOnce then
        Function.update h.marked m.doc.id ((h.marked m.doc.id).erase i)
      else h.marked
    fired :=
      if m.doc.trigger.isOnce then Function.update h.fired m.doc.id (h.fired m.doc.id + 1)
      else h.fired
    dispatches :=
      Function.update h.dispatches m.doc.id
        ({ now_ms := m.doc.updated_at_ms, scheduled_for_ms := m.scheduled_for_ms,
           marked := h.stored i } :: h.dispatches m.doc.id) }

end History

/-! ## Steps -/

namespace World

variable (w : World)

/-- `db_batch_get`. -/
def rows (keys : List String) : List ScheduleDoc :=
  (w.docs.selectWhere fun id _ => id ∈ keys).map Prod.snd

def put (doc : ScheduleDoc) : World :=
  { w with
    docs := w.docs.insert doc.id doc
    keyed := by
      intro id doc' h
      rw [Table.getElem?_insert_ite] at h
      split_ifs at h with hid
      · obtain rfl := Option.some.inj h
        exact hid
      · exact w.keyed id doc' h }

def delete (id : String) : World :=
  { w with
    docs := w.docs.erase id
    keyed := by
      intro id' doc h
      rw [Table.getElem?_erase_ite] at h
      split_ifs at h
      exact w.keyed id' doc h }

/-- The world as it will be for the next call. -/
def turn (clock : Int64) (fate : Fate) : World := { w with clock, fate }

/-- What a task is answered, and what becomes of the world. -/
def serve (c : Crates) (spawn : Spawn) (i : Nat) : (e : Eff) → World → e.Answer × World
  | .now, w => (w.clock, { w with history := w.history.read_clock i w.clock })
  | .db_keys, w => (w.fate.answer w.docs.keys, w)
  | .db_batch_get keys, w =>
    (w.fate.answer (w.rows keys),
      if w.fate.acknowledged then { w with history := w.history.list i c (w.rows keys) spawn } else w)
  | .db_get id, w => (w.fate.answer w.docs[id]?, w)
  | .db_set writer doc, w =>
    (w.fate.answer (),
      { w.fate.write w (w.put doc) with history := w.history.write i doc w.fate writer })
  | .db_delete id, w => (w.fate.answer (w.docs.contains id), w.fate.write w (w.delete id))
  | .db_incr, w =>
    (w.fate.answer (w.next_id + 1), w.fate.write w { w with next_id := w.next_id + 1 })
  | .publish_fired m _, w => ((), { w with history := w.history.dispatch i m })
  | .call_action m _ _, w => (w.fate.answer (), { w with history := w.history.dispatch i m })
  | .reply _, w => ((), w)

end World

variable {w : World}

/-- The documents that a scan is given are the stored ones. -/
theorem World.mem_rows {keys : List String} {doc : ScheduleDoc} (h : doc ∈ w.rows keys) :
    w.docs[doc.id]? = some doc := by
  obtain ⟨⟨id', doc'⟩, hrow, rfl⟩ := List.mem_map.mp h
  obtain ⟨hstored, -⟩ := Table.mem_selectWhere.mp hrow
  rw [w.keyed id' doc' hstored]
  exact hstored

theorem World.nodup_rows (w : World) (keys : List String) :
    ((w.rows keys).map ScheduleDoc.id).Nodup := by
  have hids : (w.rows keys).map ScheduleDoc.id =
      (w.docs.selectWhere fun id _ => id ∈ keys).map Prod.fst := by
    unfold World.rows
    rw [List.map_map]
    refine List.map_congr_left fun row hrow => ?_
    obtain ⟨id, doc⟩ := row
    exact w.keyed id doc (Table.mem_selectWhere.mp hrow).1
  rw [hids]
  exact Table.nodup_selectWhere _ _

/-- A task is answered by the world as it is. -/
def Handle (c : Crates) (spawn : Nat → Spawn) (i : Nat) (w : World) (e : Eff) (r : e.Answer)
    (w' : World) : Prop :=
  World.serve c (spawn i) i e w = (r, w')

/-- Any clock, and any fate of the calls. -/
def Turn (w : World) (l : Int64 × Fate) (w' : World) : Prop := w' = w.turn l.1 l.2

abbrev Tasks := Pool Nat Eff Eff.Answer Unit World

abbrev TaskLabel := PoolLabel Nat Eff Eff.Answer (Int64 × Fate)

abbrev TaskStep (c : Crates) (spawn : Nat → Spawn) : Tasks → TaskLabel → Tasks → Prop :=
  PoolStep (Handle c spawn) Turn

/-- No task has begun. -/
def Tasks.start (c : Crates) (spawn : Nat → Spawn) (world : World) : Tasks where
  tasks i := (spawn i).task c
  world := { world with history := .empty }

/-! ## Runs that are computed -/

/-- A task moves, or the clock and the fate of the calls change. -/
inductive TaskRequest where
  | act (i : Nat)
  | turn (clock : Int64) (fate : Fate)

def answerTask (c : Crates) (spawn : Nat → Spawn) (cond : World → TaskLabel → Prop)
    [∀ w l, Decidable (cond w l)] (p : Tasks) : TaskRequest → Option (TaskLabel × Tasks)
  | .act i =>
    match p.tasks i with
    | .done _ => none
    | .call e k =>
      let served := World.serve c (spawn i) i e p.world
      if cond p.world (.act i e served.1) then
        some (.act i e served.1,
          { tasks := Function.update p.tasks i (k served.1), world := served.2 })
      else none
  | .turn clock fate =>
    if cond p.world (.env (clock, fate)) then
      some (.env (clock, fate), { p with world := p.world.turn clock fate })
    else none

theorem taskStep_answerTask {c : Crates} {spawn : Nat → Spawn} {cond : World → TaskLabel → Prop}
    [∀ w l, Decidable (cond w l)] {p p' : Tasks} {a : TaskRequest} {l : TaskLabel}
    (h : answerTask c spawn cond p a = some (l, p')) :
    Transition.Where (fun p l => cond p.world l) (TaskStep c spawn) p l p' := by
  unfold answerTask at h
  split at h
  · rename_i i
    split at h
    · cases h
    · rename_i e k htask
      simp only at h
      split_ifs at h with hc
      obtain ⟨rfl, rfl⟩ := Prod.mk.inj (Option.some.inj h)
      exact ⟨.act htask rfl, hc⟩
  · rename_i clock fate
    split_ifs at h with hc
    obtain ⟨rfl, rfl⟩ := Prod.mk.inj (Option.some.inj h)
    exact ⟨.env rfl, hc⟩

/-! ## One-shots -/

/-- The stored document is a one-shot that has not fired. -/
def World.Armed (w : World) (id : String) : Prop :=
  ∃ doc, w.docs[id]? = some doc ∧ doc.armed = true

instance (w : World) (id : String) : Decidable (w.Armed id) :=
  decidable_of_iff (w.docs[id]?.any ScheduleDoc.armed = true) (by
    unfold World.Armed
    cases w.docs[id]? <;> simp)

/-- An unfired document is stored only if no fire of the schedule has been marked or dispatched since
    the last acknowledged `schedule_set`. -/
def World.MayArm (w : World) (doc : ScheduleDoc) : Writer → Prop
  | .schedule_set =>
    w.history.marked doc.id = [] ∧ (w.fate.acknowledged = true ∨ w.history.fired doc.id = 0)
  | .mark_fired => False
  | .record_last_error => w.history.marked doc.id = [] ∧ w.history.fired doc.id = 0

/-- The steps that keep a one-shot from being fired again: a scan lists it as due only if no other scan
    has listed it and not yet marked it, a mark that is lost was to replace no unfired document, and
    the other writers store an unfired document only where they may. -/
def Guarded (c : Crates) (spawn : Nat → Spawn) (id : String) (w : World) : TaskLabel → Prop
  | .act i (.db_batch_get _) (.ok docs) =>
    match spawn i with
    | .request _ => True
    | .tick => id ∈ one_shots_due c (w.history.start_ms i) docs → w.history.listed id = []
  | .act _ (.db_set writer doc) _ =>
    doc.id = id →
      match writer with
      | .mark_fired => doc.trigger.isOnce = true → w.fate.done = false → ¬ w.Armed id
      | writer => doc.armed = true → w.fate.done = true → w.MayArm doc writer
  | _ => True

instance (w : World) (doc : ScheduleDoc) (writer : Writer) : Decidable (w.MayArm doc writer) := by
  unfold World.MayArm
  split <;> infer_instance

instance (c : Crates) (spawn : Nat → Spawn) (id : String) (w : World) (l : TaskLabel) :
    Decidable (Guarded c spawn id w l) := by
  unfold Guarded
  split
  · split <;> infer_instance
  · refine @instDecidableForall _ _ inferInstance ?_
    split <;> infer_instance
  · infer_instance

/-! ## Scans that do not overlap -/

/-- A call of a scan while no other task moves: at any clock, and with any fate. -/
def Alone (c : Crates) (w : World) (e : Eff) (r : e.Answer) (w' : World) : Prop :=
  ∃ clock fate, Handle c (fun _ => .tick) 0 (w.turn clock fate) e r w'

/-- A scan: its time, and its dispatches of one schedule. -/
structure ScanRecord where
  now_ms : Int64
  dispatches : List Dispatch
deriving DecidableEq

/-- The world after some scans, the latest one first. -/
structure Scans where
  world : World
  log : List ScanRecord

/-- The next scan comes later. -/
inductive ScanStep (c : Crates) (id : String) : Scans → Int64 → Scans → Prop
  | scan {s : Scans} {now_ms : Int64} {result : Option (Except String Nat)} {w : World}
      (hlater : ∀ r ∈ s.log, r.now_ms < now_ms)
      (hscan : Exec (Alone c) { s.world with history := .empty } (scan_due c now_ms) result w) :
      ScanStep c id s now_ms
        { world := w, log := { now_ms, dispatches := w.history.dispatches id } :: s.log }

/-- A scan dispatches the schedule at most once, and after a scan that did so the schedule is
    dispatched only for later instants. -/
structure Collapsed (log : List ScanRecord) : Prop where
  once : ∀ r ∈ log, r.dispatches.length ≤ 1
  later : log.Pairwise fun r' r =>
    r.dispatches ≠ [] → ∀ d ∈ r'.dispatches, r.now_ms < d.scheduled_for_ms

/-- The last scan that dispatched the schedule. -/
def Scans.last (s : Scans) : Option ScanRecord :=
  s.log.find? fun r => !r.dispatches.isEmpty

/-- When a scan finds the schedule due, the mark of its last dispatch was stored, and that dispatch
    was made before the next occurrence. -/
def NoneMissed (c : Crates) (id : String) (s : Scans) (now_ms : Int64) : Prop :=
  ∀ doc ∈ s.world.docs[id]?, (c.due_fire now_ms doc).isSome = true →
    ∀ r ∈ s.last, ∀ d ∈ r.dispatches, d.marked = true ∧
      ∀ next ∈ c.next_fire_ms { doc with last_fired_ms := some d.scheduled_for_ms }, r.now_ms < next

/-- What is dispatched from a time on for instants up to that time. -/
def catchUp (t : Int64) (log : List ScanRecord) : List Dispatch :=
  (log.filter fun r => t ≤ r.now_ms).flatMap fun r =>
    r.dispatches.filter fun d => d.scheduled_for_ms ≤ t

instance (c : Crates) (id : String) (s : Scans) (now_ms : Int64) :
    Decidable (NoneMissed c id s now_ms) := by
  unfold NoneMissed
  -- the instants are few: they are those of an option, not all there are
  have hnext : ∀ (a : Int64) (o : Option Int64), Decidable (∀ next ∈ o, a < next) :=
    fun _ o => Option.decidableForallMem o
  infer_instance

/-! ## Scans that are computed -/

/-- A function is run alone, each of its calls at the clock and with the fate that is given. -/
def runAlone {α : Type} (c : Crates) : World → Act α → List (Int64 × Fate) → Option (α × World)
  | w, .done a, _ => some (a, w)
  | _, .call _ _, [] => none
  | w, .call e k, (clock, fate) :: turns =>
    let served := World.serve c .tick 0 e (w.turn clock fate)
    runAlone c served.2 (k served.1) turns

theorem exec_runAlone {α : Type} {c : Crates} {w : World} {m : Act α} {turns : List (Int64 × Fate)}
    {r : α × World} (h : runAlone c w m turns = some r) : Exec (Alone c) w m r.1 r.2 := by
  induction turns generalizing w m with
  | nil =>
    cases m with
    | done a =>
      obtain rfl := Option.some.inj h
      exact .done
    | call e k => cases h
  | cons turn turns ih =>
    cases m with
    | done a =>
      obtain rfl := Option.some.inj h
      exact .done
    | call e k => exact .call ⟨turn.1, turn.2, rfl⟩ (ih h)

/-- A scan at a time, with the clocks and fates of its calls. -/
def answerScan (c : Crates) (id : String) (cond : Scans → Int64 → Prop)
    [∀ s t, Decidable (cond s t)] (s : Scans) (a : Int64 × List (Int64 × Fate)) :
    Option (Int64 × Scans) :=
  if (∀ r ∈ s.log, r.now_ms < a.1) ∧ cond s a.1 then
    (runAlone c { s.world with history := .empty } (scan_due c a.1) a.2).map fun r =>
      (a.1, { world := r.2, log := { now_ms := a.1, dispatches := r.2.history.dispatches id } :: s.log })
  else none

theorem scanStep_answerScan {c : Crates} {id : String} {cond : Scans → Int64 → Prop}
    [∀ s t, Decidable (cond s t)] {s s' : Scans} {a : Int64 × List (Int64 × Fate)} {now_ms : Int64}
    (h : answerScan c id cond s a = some (now_ms, s')) :
    Transition.Where cond (ScanStep c id) s now_ms s' := by
  unfold answerScan at h
  split_ifs at h with hc
  obtain ⟨r, hr, heq⟩ := Option.map_eq_some_iff.mp h
  obtain ⟨rfl, rfl⟩ := Prod.mk.inj heq
  exact ⟨.scan hc.1 (exec_runAlone hr), hc.2⟩

end Scheduler
