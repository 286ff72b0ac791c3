import VynkorPlugins.Scheduler.World

/-!
# One-shots fire once

A one-shot that is due is in the hands of at most one scan: the scan has listed it, or has marked it,
or it has been dispatched. While it is marked or dispatched, the stored document has fired.
-/

namespace Scheduler

open Async Transition

variable {c : Crates} {id : String} {w w' : World} {i : Nat}

/-! ## What a scan does with a one-shot -/

/-- What a task has at hand of one schedule. -/
structure Local where
  spawn : Spawn
  began : Option Int64
  /-- It has listed the one-shot as due and has not marked it yet. -/
  listed : Bool
  /-- It has marked the one-shot and has not dispatched it yet. -/
  marked : Bool

def Local.start (spawn : Spawn) : Local where
  spawn
  began := none
  listed := false
  marked := false

def Local.Allowed (id : String) (s : Local) : Eff → Prop
  | .db_batch_get _ => s.listed = false ∧ s.marked = false
  | .db_set .mark_fired doc =>
    doc.id = id → doc.trigger.isOnce = true →
      s.listed = true ∧ s.marked = false ∧ doc.fired_once = true
  | .publish_fired m _ | .call_action m _ _ =>
    m.doc.id = id → m.doc.trigger.isOnce = true → s.marked = true
  | _ => True

/-- A scan lists the documents. -/
def Local.list (c : Crates) (id : String) (s : Local) (docs : List ScheduleDoc) : Local :=
  match s.spawn with
  | .request _ => s
  | .tick => { s with listed := id ∈ one_shots_due c (s.began.getD 0) docs }

def Local.mark (id : String) (s : Local) (doc : ScheduleDoc) : Local :=
  if doc.id = id ∧ doc.trigger.isOnce = true then { s with listed := false, marked := true } else s

def Local.dispatch (id : String) (s : Local) (doc : ScheduleDoc) : Local :=
  if doc.id = id ∧ doc.trigger.isOnce = true then { s with marked := false } else s

def Local.Next (c : Crates) (id : String) (s : Local) : (e : Eff) → e.Answer → Local → Prop
  | .now, t, s' => s' = { s with began := some (s.began.getD t) }
  | .db_batch_get _, .ok docs, s' =>
    (docs.map ScheduleDoc.id).Nodup ∧ s' = s.list c id docs
  | .db_set .mark_fired doc, _, s' => s' = s.mark id doc
  | .publish_fired m _, _, s' => s' = s.dispatch id m.doc
  | .call_action m _ _, _, s' => s' = s.dispatch id m.doc
  | _, _, s' => s' = s

def fireProtocol (c : Crates) (id : String) : Protocol Eff Eff.Answer Local where
  allowed := Local.Allowed id
  next := Local.Next c id

section

variable {s : Local} {now_ms : Int64} {fire : DueFire} {fires : List DueFire}

/-- What is left to be fired. -/
structure Local.Pending (id : String) (s : Local) (fires : List DueFire) : Prop where
  nodup : (fires.map fun fire => fire.doc.id).Nodup
  listed : ∀ fire ∈ fires, fire.doc.id = id → fire.doc.trigger.isOnce = true → s.listed = true
  marked : s.marked = false

theorem Local.Pending.tail (h : s.Pending id (fire :: fires)) : s.Pending id fires where
  nodup := (List.nodup_cons.mp h.nodup).2
  listed f hf := h.listed f (List.mem_cons_of_mem _ hf)
  marked := h.marked

theorem Local.Pending.congr {s' : Local} (h : s.Pending id fires) (hl : s'.listed = s.listed)
    (hm : s'.marked = s.marked) : s'.Pending id fires where
  nodup := h.nodup
  listed := by
    rw [hl]
    exact h.listed
  marked := hm.trans h.marked

/-- After the fire of the one-shot itself nothing of it is left. -/
theorem Local.Pending.fired {s' : Local} (h : s.Pending id (fire :: fires)) (hid : fire.doc.id = id)
    (hm : s'.marked = false) : s'.Pending id fires where
  nodup := h.tail.nodup
  listed f hf hf' := by
    have hmem : fire.doc.id ∈ fires.map fun fire => fire.doc.id :=
      List.mem_map.mpr ⟨f, hf, hf'.trans hid.symm⟩
    exact absurd hmem (List.nodup_cons.mp h.nodup).1
  marked := hm

/-- What follows a dispatch fires nothing. -/
theorem obeys_record_last_error (schedule error : String) :
    Obeys (fireProtocol c id)
      (fun s' _ => s'.listed = s.listed ∧ s'.marked = s.marked) s
      (record_last_error schedule error) := by
  unfold record_last_error
  refine ⟨trivial, ?_⟩
  rintro (e | (_ | doc)) s' rfl
  · exact ⟨rfl, rfl⟩
  · exact ⟨rfl, rfl⟩
  dsimp only [Async.bind]
  cases Rust.truncate error MAX_ERROR_BYTES with
  | none => exact ⟨rfl, rfl⟩
  | some msg =>
    refine ⟨trivial, ?_⟩
    rintro now s' rfl
    refine ⟨trivial, ?_⟩
    rintro r s' rfl
    exact ⟨rfl, rfl⟩

/-- A marked fire is dispatched, and nothing of it is left. -/
theorem obeys_deliver {marked : MarkedFire}
    (hmay : marked.doc.id = id → marked.doc.trigger.isOnce = true → s.marked = true) :
    Obeys (fireProtocol c id)
      (fun s' _ => s'.listed = s.listed ∧ s'.marked = (s.dispatch id marked.doc).marked) s
      (deliver marked) := by
  have hlisted : (s.dispatch id marked.doc).listed = s.listed := by
    unfold Local.dispatch
    split_ifs <;> rfl
  unfold deliver
  split
  · refine ⟨hmay, ?_⟩
    rintro - s' rfl
    exact ⟨hlisted, rfl⟩
  · refine ⟨hmay, ?_⟩
    rintro (e | _) s' rfl
    · refine (obeys_record_last_error marked.doc.id e).bind ?_
      rintro s' (_ | _) ⟨hl, hm⟩
      · exact ⟨hl.trans hlisted, hm⟩
      · exact ⟨hl.trans hlisted, hm⟩
    · exact ⟨hlisted, rfl⟩

theorem obeys_fire_due (h : s.Pending id (fire :: fires)) :
    Obeys (fireProtocol c id) (fun s' _ => s'.Pending id fires) s (fire_due now_ms fire) := by
  unfold fire_due mark_fired
  have honce : (fire.marked_doc now_ms).trigger.isOnce = true →
      (fire.marked_doc now_ms).fired_once = true := by
    intro ht
    exact Bool.or_eq_true_iff.mpr (.inl ht)
  refine ⟨fun hid ht => ⟨h.listed fire List.mem_cons_self hid ht, h.marked, honce ht⟩, ?_⟩
  rintro r s' rfl
  change Obeys _ _ _ (deliver (fire.marked now_ms))
  by_cases hfire : fire.doc.id = id ∧ fire.doc.trigger.isOnce = true
  · have hmark : s.mark id (fire.marked_doc now_ms) = { s with listed := false, marked := true } :=
      if_pos hfire
    rw [hmark]
    refine (obeys_deliver fun _ _ => rfl).mono ?_
    rintro s' - ⟨hl, hm⟩
    have hdispatch : (Local.dispatch id { s with listed := false, marked := true }
        (fire.marked now_ms).doc).marked = false := congrArg Local.marked (if_pos hfire)
    exact h.fired hfire.1 (hm.trans hdispatch)
  · have hmark : s.mark id (fire.marked_doc now_ms) = s := if_neg hfire
    rw [hmark]
    refine (obeys_deliver fun hid ht => absurd ⟨hid, ht⟩ hfire).mono ?_
    rintro s' - ⟨hl, hm⟩
    have hdispatch : s.dispatch id (fire.marked now_ms).doc = s := if_neg hfire
    rw [hdispatch] at hm
    exact h.tail.congr hl hm

theorem obeys_fire_all (h : s.Pending id fires) :
    Obeys (fireProtocol c id) (fun _ _ => True) s (fire_all now_ms fires) := by
  induction fires generalizing s with
  | nil => trivial
  | cons fire fires ih =>
    unfold fire_all
    refine (obeys_fire_due h).bind ?_
    rintro s' (_ | _) hs
    · trivial
    · exact ih hs

/-! ## What the tasks do -/

/-- A task that has nothing in its hands. -/
structure Local.Idle (s : Local) : Prop where
  listed : s.listed = false
  marked : s.marked = false

theorem mem_one_shots_due {docs : List ScheduleDoc} :
    id ∈ one_shots_due c now_ms docs ↔
      ∃ fire ∈ c.due_schedules docs now_ms, fire.doc.trigger.isOnce = true ∧ fire.doc.id = id := by
  unfold one_shots_due
  simp only [List.mem_map, List.mem_filter]
  constructor
  · rintro ⟨fire, ⟨hfire, ht⟩, hid⟩
    exact ⟨fire, hfire, ht, hid⟩
  · rintro ⟨fire, hfire, ht, hid⟩
    exact ⟨fire, ⟨hfire, ht⟩, hid⟩

/-- What a listing leaves to be fired. -/
theorem Local.Idle.pending {docs : List ScheduleDoc} (h : s.Idle) (hspawn : s.spawn = .tick)
    (hnow : s.began = some now_ms) (hnodup : (docs.map ScheduleDoc.id).Nodup) :
    (s.list c id docs).Pending id (c.due_schedules docs now_ms) := by
  have hlist : s.list c id docs = { s with listed := id ∈ one_shots_due c now_ms docs } := by
    unfold Local.list
    rw [hspawn, hnow]
    rfl
  rw [hlist]
  refine ⟨nodup_due_schedules hnodup, fun fire hfire hid ht => ?_, h.marked⟩
  exact decide_eq_true (mem_one_shots_due.mpr ⟨fire, hfire, ht, hid⟩)

theorem obeys_scan_due (h : s.Idle) (hspawn : s.spawn = .tick) (hnow : s.began = some now_ms) :
    Obeys (fireProtocol c id) (fun _ _ => True) s (scan_due c now_ms) := by
  unfold scan_due Db.list
  refine ⟨trivial, ?_⟩
  rintro (e | keys) s' rfl
  · trivial
  change Obeys _ _ _ ((if keys = [] then _ else _) >>= _)
  split_ifs
  · trivial
  refine ⟨⟨h.listed, h.marked⟩, ?_⟩
  rintro (e | docs) s' hs
  · trivial
  obtain ⟨hnodup, rfl⟩ := hs
  refine (obeys_fire_all (h.pending hspawn hnow hnodup)).bind ?_
  rintro s' (_ | _) -
  · trivial
  · trivial

theorem obeys_store (created : Bool) (doc : ScheduleDoc) :
    Obeys (fireProtocol c id) (fun _ _ => True) s (store created doc) := by
  unfold store
  refine ⟨trivial, ?_⟩
  rintro (e | _) s' rfl
  · trivial
  · trivial

theorem obeys_schedule_set (new : NewSchedule) :
    Obeys (fireProtocol c id) (fun _ _ => True) s (schedule_set new now_ms) := by
  unfold schedule_set
  split
  · refine ⟨trivial, ?_⟩
    rintro (e | existing) s' rfl
    · trivial
    · exact obeys_store _ _
  · refine ⟨trivial, ?_⟩
    rintro (e | n) s' rfl
    · trivial
    · exact obeys_store _ _

theorem obeys_apply (h : s.Idle) (req : SchedulerRequest) :
    Obeys (fireProtocol c id) (fun _ _ => True) s (apply c req now_ms) := by
  cases req with
  | Set new => exact obeys_schedule_set new
  | Get id' =>
    refine ⟨trivial, ?_⟩
    rintro (e | doc) s' rfl
    · trivial
    · trivial
  | List limit offset =>
    unfold apply Db.list
    refine ⟨trivial, ?_⟩
    rintro (e | keys) s' rfl
    · trivial
    change Obeys _ _ _ ((if keys = [] then _ else _) >>= _)
    split_ifs
    · trivial
    refine ⟨⟨h.listed, h.marked⟩, ?_⟩
    rintro (e | docs) s' -
    · trivial
    · trivial
  | Delete id' =>
    refine ⟨trivial, ?_⟩
    rintro (e | deleted) s' rfl
    · trivial
    · trivial

theorem obeys_task (spawn : Spawn) :
    Obeys (fireProtocol c id) (fun _ _ => True) (.start spawn) (spawn.task c) := by
  cases spawn with
  | tick =>
    refine ⟨trivial, ?_⟩
    rintro now s' rfl
    refine (obeys_scan_due ⟨rfl, rfl⟩ rfl rfl).bind ?_
    rintro s' r -
    trivial
  | request req =>
    refine ⟨trivial, ?_⟩
    rintro now s' rfl
    refine (obeys_apply ⟨rfl, rfl⟩ req).bind ?_
    rintro s' r -
    refine ⟨trivial, ?_⟩
    rintro r' s'' -
    trivial

end

/-! ## Invariant -/

/-- The history of the one-shot, as far as its fires are counted. -/
structure Counted (id : String) (w : World) : Prop where
  once : (w.history.listed id).length + (w.history.marked id).length + w.history.fired id ≤ 1
  armed : w.Armed id → w.history.marked id = [] ∧ w.history.fired id = 0

/-- The history knows what each task has at hand. -/
structure Known (spawn : Nat → Spawn) (id : String) (g : Nat → Local) (h : History) : Prop where
  spawn : ∀ i, (g i).spawn = spawn i
  began : ∀ i, (g i).began = h.began i
  listed : ∀ i, i ∈ h.listed id ↔ (g i).listed = true
  marked : ∀ i, i ∈ h.marked id ↔ (g i).marked = true

variable {spawn : Nat → Spawn} {g : Nat → Local} {s : Local} {h h' : History}

theorem Known.update (hk : Known spawn id g h) (hspawn : s.spawn = (g i).spawn)
    (hbegan : s.began = h'.began i) (hlisted : i ∈ h'.listed id ↔ s.listed = true)
    (hmarked : i ∈ h'.marked id ↔ s.marked = true)
    (hother : ∀ j, j ≠ i → h'.began j = h.began j ∧ (j ∈ h'.listed id ↔ j ∈ h.listed id) ∧
      (j ∈ h'.marked id ↔ j ∈ h.marked id)) :
    Known spawn id (Function.update g i s) h' := by
  constructor
  · intro j
    rcases eq_or_ne j i with rfl | hne
    · rw [Function.update_self, hspawn]
      exact hk.spawn j
    · rw [Function.update_of_ne hne]
      exact hk.spawn j
  · intro j
    rcases eq_or_ne j i with rfl | hne
    · rw [Function.update_self]
      exact hbegan
    · rw [Function.update_of_ne hne, (hother j hne).1]
      exact hk.began j
  · intro j
    rcases eq_or_ne j i with rfl | hne
    · rw [Function.update_self]
      exact hlisted
    · rw [Function.update_of_ne hne, (hother j hne).2.1]
      exact hk.listed j
  · intro j
    rcases eq_or_ne j i with rfl | hne
    · rw [Function.update_self]
      exact hmarked
    · rw [Function.update_of_ne hne, (hother j hne).2.2]
      exact hk.marked j

/-- A history that is the same for the one-shot. -/
theorem Known.congr (hk : Known spawn id g h) (hbegan : h'.began = h.began)
    (hlisted : h'.listed id = h.listed id) (hmarked : h'.marked id = h.marked id) :
    Known spawn id (Function.update g i (g i)) h' := by
  rw [Function.update_eq_self]
  constructor
  · exact hk.spawn
  · rw [hbegan]
    exact hk.began
  · rw [hlisted]
    exact hk.listed
  · rw [hmarked]
    exact hk.marked

theorem Counted.congr (hc : Counted id w) (hdocs : w'.docs[id]? = w.docs[id]?)
    (hlisted : w'.history.listed id = w.history.listed id)
    (hmarked : w'.history.marked id = w.history.marked id)
    (hfired : w'.history.fired id = w.history.fired id) : Counted id w' := by
  constructor
  · rw [hlisted, hmarked, hfired]
    exact hc.once
  · unfold World.Armed
    rw [hdocs, hmarked, hfired]
    exact hc.armed

/-! ## One step -/

/-- Of a one-shot that one scan has, no other one has it. -/
theorem Counted.eq_singleton (hc : Counted id w) (hi : i ∈ w.history.listed id) :
    w.history.listed id = [i] ∧ w.history.marked id = [] ∧ w.history.fired id = 0 := by
  have honce := hc.once
  have hpos := List.length_pos_of_mem hi
  obtain ⟨j, hj⟩ : ∃ j, w.history.listed id = [j] := List.length_eq_one_iff.mp (by omega)
  rw [hj] at hi
  obtain rfl := List.mem_singleton.mp hi
  exact ⟨hj, List.length_eq_zero_iff.mp (by omega), by omega⟩

theorem Counted.eq_singleton_of_marked (hc : Counted id w) (hi : i ∈ w.history.marked id) :
    w.history.marked id = [i] ∧ w.history.listed id = [] ∧ w.history.fired id = 0 := by
  have honce := hc.once
  have hpos := List.length_pos_of_mem hi
  obtain ⟨j, hj⟩ : ∃ j, w.history.marked id = [j] := List.length_eq_one_iff.mp (by omega)
  rw [hj] at hi
  obtain rfl := List.mem_singleton.mp hi
  exact ⟨hj, List.length_eq_zero_iff.mp (by omega), by omega⟩

/-- A one-shot that is listed as due is stored, and has not fired. -/
theorem World.armed_of_due {keys : List String} {now_ms : Int64}
    (h : id ∈ one_shots_due c now_ms (w.rows keys)) : w.Armed id := by
  obtain ⟨fire, hfire, ht, rfl⟩ := mem_one_shots_due.mp h
  obtain ⟨hdoc, hdue⟩ := mem_due_schedules.mp hfire
  exact ⟨fire.doc, w.mem_rows hdoc, armed_of_due hdue ht⟩

/-- A scan lists the one-shot, if no other one has listed it. -/
theorem Counted.list (hc : Counted id w) {keys : List String}
    (hfree : id ∈ one_shots_due c (w.history.start_ms i) (w.rows keys) → w.history.listed id = []) :
    Counted id { w with history := w.history.list i c (w.rows keys) .tick } := by
  by_cases hdue : id ∈ one_shots_due c (w.history.start_ms i) (w.rows keys)
  · have harmed := w.armed_of_due hdue
    obtain ⟨hmarked, hfired⟩ := hc.armed harmed
    have hlisted : (w.history.list i c (w.rows keys) .tick).listed id = [i] := by
      change (if _ then _ else _) = _
      rw [if_pos hdue, hfree hdue]
    constructor
    · change ((w.history.list i c (w.rows keys) .tick).listed id).length +
        (w.history.marked id).length + w.history.fired id ≤ 1
      rw [hlisted, hmarked, hfired]
      exact Nat.le_refl 1
    · exact hc.armed
  · exact hc.congr rfl (if_neg hdue) rfl rfl

/-- The world after a document was written. -/
def World.written (w : World) (i : Nat) (writer : Writer) (doc : ScheduleDoc) : World :=
  { w.fate.write w (w.put doc) with history := w.history.write i doc w.fate writer }

section

variable {writer : Writer} {doc : ScheduleDoc}

theorem docs_written : (w.written i writer doc).docs =
    if w.fate.done then w.docs.insert doc.id doc else w.docs := by
  unfold World.written
  rw [Fate.write_eq]
  cases w.fate.done <;> rfl

theorem docs_written_of_ne (hne : doc.id ≠ id) :
    (w.written i writer doc).docs[id]? = w.docs[id]? := by
  rw [docs_written]
  split_ifs
  · rw [Table.getElem?_insert_ite, if_neg hne]
  · rfl

/-- A document is armed after a write if it is written armed, or is not written. -/
theorem armed_written (h : (w.written i writer doc).Armed doc.id) :
    if w.fate.done then doc.armed = true else w.Armed doc.id := by
  unfold World.Armed at h
  rw [docs_written] at h
  split_ifs at h ⊢
  · rw [Table.getElem?_insert_ite, if_pos rfl] at h
    obtain ⟨doc', hdoc', harmed⟩ := h
    obtain rfl := Option.some.inj hdoc'
    exact harmed
  · exact h

/-- The history of the other schedules is not touched. -/
theorem write_of_ne (writer : Writer) (hne : doc.id ≠ id) (h : History) (fate : Fate) :
    (h.write i doc fate writer).listed id = h.listed id ∧
      (h.write i doc fate writer).marked id = h.marked id ∧
      (h.write i doc fate writer).fired id = h.fired id := by
  cases writer with
  | schedule_set =>
    unfold History.write History.set
    dsimp only
    split_ifs
    · exact ⟨rfl, rfl, Function.update_of_ne hne.symm _ _⟩
    · exact ⟨rfl, rfl, rfl⟩
  | mark_fired =>
    unfold History.write History.mark
    dsimp only
    split_ifs
    · exact ⟨Function.update_of_ne hne.symm _ _, Function.update_of_ne hne.symm _ _, rfl⟩
    · exact ⟨rfl, rfl, rfl⟩
  | record_last_error => exact ⟨rfl, rfl, rfl⟩

/-- A fire that a scan has listed is marked. -/
theorem Counted.mark (hc : Counted doc.id w) (hi : i ∈ w.history.listed doc.id)
    (ht : doc.trigger.isOnce = true) (hfired : doc.fired_once = true)
    (hguard : w.fate.done = false → ¬ w.Armed doc.id) :
    Counted doc.id (w.written i .mark_fired doc) := by
  obtain ⟨hlisted, hmarked, hcount⟩ := hc.eq_singleton hi
  have hmark : (w.written i .mark_fired doc).history = w.history.mark i doc w.fate.done := rfl
  have honce : (w.history.mark i doc w.fate.done).listed doc.id = [] ∧
      (w.history.mark i doc w.fate.done).marked doc.id = [i] ∧
      (w.history.mark i doc w.fate.done).fired doc.id = 0 := by
    unfold History.mark
    rw [if_pos ht]
    simp only [Function.update_self, hlisted, hmarked, hcount, List.erase_cons_head, and_self]
  constructor
  · rw [hmark, honce.1, honce.2.1, honce.2.2]
    exact Nat.le_refl 1
  · intro harmed
    have h := armed_written harmed
    split_ifs at h with hdone
    · unfold ScheduleDoc.armed at h
      simp [hfired] at h
    · exact absurd h (hguard (by simpa using hdone))

/-- The mark of a cron schedule. -/
theorem Counted.mark_cron (hc : Counted doc.id w) (ht : doc.trigger.isOnce ≠ true) :
    Counted doc.id (w.written i .mark_fired doc) := by
  have hmark : (w.written i .mark_fired doc).history =
      { w.history with stored := Function.update w.history.stored i w.fate.done } := if_neg ht
  constructor
  · rw [hmark]
    exact hc.once
  · intro harmed
    rw [hmark]
    have h := armed_written harmed
    split_ifs at h with hdone
    · unfold ScheduleDoc.armed at h
      simp [ht] at h
    · exact hc.armed h

/-- A request sets the schedule. -/
theorem Counted.set (hc : Counted doc.id w)
    (hguard : doc.armed = true → w.fate.done = true → w.MayArm doc .schedule_set) :
    Counted doc.id (w.written i .schedule_set doc) := by
  have hhistory : (w.written i .schedule_set doc).history = w.history.set doc w.fate.acknowledged := rfl
  have hset : (w.history.set doc w.fate.acknowledged).listed = w.history.listed ∧
      (w.history.set doc w.fate.acknowledged).marked = w.history.marked ∧
      (w.history.set doc w.fate.acknowledged).fired doc.id =
        if w.fate.acknowledged then 0 else w.history.fired doc.id := by
    unfold History.set
    split_ifs
    · exact ⟨rfl, rfl, Function.update_self _ _ _⟩
    · exact ⟨rfl, rfl, rfl⟩
  constructor
  · rw [hhistory, hset.1, hset.2.1, hset.2.2]
    have honce := hc.once
    split_ifs <;> omega
  · intro harmed
    rw [hhistory, hset.2.1, hset.2.2]
    have h := armed_written harmed
    split_ifs at h with hdone
    · obtain ⟨hmarked, hfired⟩ := hguard h hdone
      refine ⟨hmarked, ?_⟩
      split_ifs with hack
      · rfl
      · exact hfired.resolve_left hack
    · obtain ⟨hmarked, hfired⟩ := hc.armed h
      refine ⟨hmarked, ?_⟩
      split_ifs
      · rfl
      · exact hfired

/-- An error is recorded. -/
theorem Counted.record (hc : Counted doc.id w)
    (hguard : doc.armed = true → w.fate.done = true → w.MayArm doc .record_last_error) :
    Counted doc.id (w.written i .record_last_error doc) := by
  refine ⟨hc.once, fun harmed => ?_⟩
  have h := armed_written harmed
  split_ifs at h with hdone
  · exact hguard h hdone
  · exact hc.armed h

/-- A marked fire is dispatched. -/
theorem Counted.dispatch {m : MarkedFire} (hc : Counted id w)
    (hi : m.doc.id = id → m.doc.trigger.isOnce = true → i ∈ w.history.marked id) :
    Counted id { w with history := w.history.dispatch i m } := by
  by_cases hfire : m.doc.id = id ∧ m.doc.trigger.isOnce = true
  · obtain ⟨rfl, ht⟩ := hfire
    obtain ⟨hmarked, hlisted, hfired⟩ := hc.eq_singleton_of_marked (hi rfl ht)
    have hcount : (w.history.dispatch i m).marked m.doc.id = [] ∧
        (w.history.dispatch i m).fired m.doc.id = 1 := by
      unfold History.dispatch
      simp only [if_pos ht, Function.update_self, hmarked, hfired, List.erase_cons_head, and_self]
    constructor
    · change (w.history.listed m.doc.id).length + _ + _ ≤ 1
      rw [hlisted, hcount.1, hcount.2]
      exact Nat.le_refl 1
    · intro harmed
      obtain ⟨hnone, -⟩ := hc.armed harmed
      rw [hmarked] at hnone
      cases hnone
  · have hsame : (w.history.dispatch i m).marked id = w.history.marked id ∧
        (w.history.dispatch i m).fired id = w.history.fired id := by
      unfold History.dispatch
      dsimp only
      by_cases ht : m.doc.trigger.isOnce = true
      · have hne : id ≠ m.doc.id := fun hid => hfire ⟨hid.symm, ht⟩
        rw [if_pos ht, if_pos ht, Function.update_of_ne hne, Function.update_of_ne hne]
        exact ⟨rfl, rfl⟩
      · rw [if_neg ht, if_neg ht]
        exact ⟨rfl, rfl⟩
    exact hc.congr rfl rfl hsame.1 hsame.2

end

/-! ## What the history knows of the tasks -/

theorem Known.read_clock (hk : Known spawn id g h) (t : Int64) :
    Known spawn id (Function.update g i { g i with began := some ((g i).began.getD t) })
      (h.read_clock i t) := by
  refine hk.update rfl ?_ (hk.listed i) (hk.marked i) fun j hj => ⟨?_, Iff.rfl, Iff.rfl⟩
  · change _ = Function.update h.began i _ i
    rw [Function.update_self, hk.began i]
  · exact Function.update_of_ne hj _ _

theorem Known.list (hk : Known spawn id g h) (docs : List ScheduleDoc) (hl : (g i).listed = false) :
    Known spawn id (Function.update g i ((g i).list c id docs)) (h.list i c docs (spawn i)) := by
  have hspawn := hk.spawn i
  have hstart : (g i).began.getD 0 = h.start_ms i := by
    unfold History.start_ms
    rw [hk.began i]
  unfold Local.list
  rw [hspawn]
  cases hs : spawn i with
  | request req => exact hk.congr rfl rfl rfl
  | tick =>
    have hnot : i ∉ h.listed id := fun hi => by simpa [hl] using (hk.listed i).mp hi
    have hlisted : (h.list i c docs .tick).listed id =
        if id ∈ one_shots_due c (h.start_ms i) docs then i :: h.listed id else h.listed id := rfl
    refine hk.update (hspawn.trans hs).symm (hk.began i) ?_ (hk.marked i)
      fun j hj => ⟨rfl, ?_, Iff.rfl⟩
    · rw [hlisted, hstart]
      split_ifs with hdue
      · simp [hdue]
      · simp [hdue, hnot]
    · rw [hlisted]
      split_ifs
      · rw [List.mem_cons]
        exact or_iff_right hj
      · exact Iff.rfl

theorem Known.mark {doc : ScheduleDoc} {done : Bool} (hk : Known spawn id g h)
    (hone : doc.id = id → doc.trigger.isOnce = true → h.listed id = [i]) :
    Known spawn id (Function.update g i ((g i).mark id doc)) (h.mark i doc done) := by
  by_cases hfire : doc.id = id ∧ doc.trigger.isOnce = true
  · have hmark : (g i).mark id doc = { g i with listed := false, marked := true } := if_pos hfire
    rw [hmark]
    obtain ⟨rfl, ht⟩ := hfire
    unfold History.mark
    rw [if_pos ht]
    have hlisted := hone rfl ht
    refine hk.update rfl (hk.began i) ?_ ?_ fun j hj => ⟨rfl, ?_, ?_⟩
    · simp [hlisted]
    · simp
    · simp [hlisted, hj]
    · simp [hj]
  · have hmark : (g i).mark id doc = g i := if_neg hfire
    rw [hmark]
    unfold History.mark
    split_ifs with ht
    · have hne : id ≠ doc.id := fun hid => hfire ⟨hid.symm, ht⟩
      exact hk.congr rfl (Function.update_of_ne hne _ _) (Function.update_of_ne hne _ _)
    · exact hk.congr rfl rfl rfl

theorem Known.dispatch {m : MarkedFire} (hk : Known spawn id g h)
    (hone : m.doc.id = id → m.doc.trigger.isOnce = true → h.marked id = [i]) :
    Known spawn id (Function.update g i ((g i).dispatch id m.doc)) (h.dispatch i m) := by
  by_cases hfire : m.doc.id = id ∧ m.doc.trigger.isOnce = true
  · have hdispatch : (g i).dispatch id m.doc = { g i with marked := false } := if_pos hfire
    rw [hdispatch]
    obtain ⟨rfl, ht⟩ := hfire
    have hmarked : (h.dispatch i m).marked m.doc.id = [] := by
      unfold History.dispatch
      simp [ht, hone rfl ht]
    refine hk.update rfl (hk.began i) (hk.listed i) ?_ fun j hj => ⟨rfl, Iff.rfl, ?_⟩
    · simp [hmarked]
    · simp [hmarked, hone rfl ht, hj]
  · have hdispatch : (g i).dispatch id m.doc = g i := if_neg hfire
    rw [hdispatch]
    refine hk.congr rfl rfl ?_
    unfold History.dispatch
    dsimp only
    split_ifs with ht
    · exact Function.update_of_ne (fun hid => hfire ⟨hid.symm, ht⟩) _ _
    · rfl

theorem Known.set {doc : ScheduleDoc} {acknowledged : Bool} (hk : Known spawn id g h) :
    Known spawn id (Function.update g i (g i)) (h.set doc acknowledged) := by
  unfold History.set
  split_ifs
  · exact hk.congr rfl rfl rfl
  · exact hk.congr rfl rfl rfl

/-! ## Runs -/

/-- The tasks and the world. -/
structure OnceInv (spawn : Nat → Spawn) (id : String) (g : Nat → Local) (w : World) : Prop where
  known : Known spawn id g w.history
  counted : Counted id w

/-- A step that touches neither the documents nor the history. -/
theorem OnceInv.unchanged (h : OnceInv spawn id g w) (hdocs : w'.docs[id]? = w.docs[id]?)
    (hhistory : w'.history = w.history) :
    OnceInv spawn id (Function.update g i (g i)) w' := by
  refine ⟨?_, h.counted.congr hdocs ?_ ?_ ?_⟩
  · rw [hhistory, Function.update_eq_self]
    exact h.known
  · rw [hhistory]
  · rw [hhistory]
  · rw [hhistory]

/-- A document is written. -/
theorem OnceInv.written {writer : Writer} {doc : ScheduleDoc} (h : OnceInv spawn id g w)
    (hallowed : (g i).Allowed id (.db_set writer doc)) {r : Except String Unit}
    (hguard : Guarded c spawn id w (.act i (.db_set writer doc) r)) :
    ∃ s, (g i).Next c id (.db_set writer doc) r s ∧
      OnceInv spawn id (Function.update g i s) (w.written i writer doc) := by
  have hcounted : Counted id (w.written i writer doc) := by
    by_cases hid : doc.id = id
    · subst hid
      cases writer with
      | schedule_set => exact h.counted.set (hguard rfl)
      | record_last_error => exact h.counted.record (hguard rfl)
      | mark_fired =>
        by_cases ht : doc.trigger.isOnce = true
        · obtain ⟨hl, -, hfired⟩ := hallowed rfl ht
          exact h.counted.mark ((h.known.listed i).mpr hl) ht hfired (hguard rfl ht)
        · exact h.counted.mark_cron ht
    · obtain ⟨hlisted, hmarked, hfired⟩ := write_of_ne (i := i) writer hid w.history w.fate
      exact h.counted.congr (docs_written_of_ne hid) hlisted hmarked hfired
  cases writer with
  | schedule_set => exact ⟨_, rfl, h.known.set, hcounted⟩
  | record_last_error => exact ⟨_, rfl, h.known.congr rfl rfl rfl, hcounted⟩
  | mark_fired =>
    refine ⟨_, rfl, h.known.mark fun hid ht => ?_, hcounted⟩
    obtain ⟨hl, -, -⟩ := hallowed hid ht
    exact (h.counted.eq_singleton ((h.known.listed i).mpr hl)).1

/-- A marked fire is dispatched. -/
theorem OnceInv.dispatched {m : MarkedFire} (h : OnceInv spawn id g w)
    (hallowed : m.doc.id = id → m.doc.trigger.isOnce = true → (g i).marked = true) :
    OnceInv spawn id (Function.update g i ((g i).dispatch id m.doc))
      { w with history := w.history.dispatch i m } := by
  have hi : m.doc.id = id → m.doc.trigger.isOnce = true → i ∈ w.history.marked id :=
    fun hid ht => (h.known.marked i).mpr (hallowed hid ht)
  exact ⟨h.known.dispatch fun hid ht => (h.counted.eq_singleton_of_marked (hi hid ht)).1,
    h.counted.dispatch hi⟩

/-- A document is deleted. -/
theorem OnceInv.deleted (h : OnceInv spawn id g w) (id' : String) :
    OnceInv spawn id (Function.update g i (g i)) (w.fate.write w (w.delete id')) := by
  rw [Fate.write_eq]
  split_ifs
  · refine ⟨?_, h.counted.once, fun harmed => h.counted.armed ?_⟩
    · rw [Function.update_eq_self]
      exact h.known
    obtain ⟨doc, hdoc, harmed⟩ := harmed
    change (w.docs.erase id')[id]? = some doc at hdoc
    rw [Table.getElem?_erase_ite] at hdoc
    split_ifs at hdoc
    exact ⟨doc, hdoc, harmed⟩
  · exact h.unchanged rfl rfl

/-- One effect of a task. -/
theorem onceInv_act {e : Eff} {r : e.Answer} (h : OnceInv spawn id g w)
    (hallowed : (g i).Allowed id e) (hw : Handle c spawn i w e r w')
    (hguard : Guarded c spawn id w (.act i e r)) :
    ∃ s, (g i).Next c id e r s ∧ OnceInv spawn id (Function.update g i s) w' := by
  obtain ⟨rfl, rfl⟩ := Prod.mk.inj hw
  cases e with
  | now =>
    exact ⟨_, rfl, h.known.read_clock w.clock, h.counted.congr rfl rfl rfl rfl⟩
  | db_keys => exact ⟨_, rfl, h.unchanged rfl rfl⟩
  | db_batch_get keys =>
    obtain ⟨hl, -⟩ := hallowed
    change ∃ s, (g i).Next c id (.db_batch_get keys) (w.fate.answer (w.rows keys)) s ∧
      OnceInv spawn id (Function.update g i s) (if w.fate.acknowledged then _ else w)
    by_cases hack : w.fate.acknowledged = true
    · have hanswer : w.fate.answer (w.rows keys) = .ok (w.rows keys) :=
        Fate.answer_eq_ok_iff.mpr ⟨Fate.acknowledged_iff.mp hack, rfl⟩
      rw [if_pos hack, hanswer]
      refine ⟨_, ⟨w.nodup_rows keys, rfl⟩, h.known.list _ hl, ?_⟩
      change Guarded c spawn id w (.act i (.db_batch_get keys) (w.fate.answer (w.rows keys))) at hguard
      rw [hanswer] at hguard
      unfold Guarded at hguard
      dsimp only at hguard
      cases hspawn : spawn i with
      | request req => exact h.counted
      | tick =>
        rw [hspawn] at hguard
        exact h.counted.list hguard
    · obtain ⟨e, he⟩ := Fate.answer_of_not_acknowledged (w.rows keys) hack
      rw [if_neg hack, he]
      exact ⟨_, rfl, h.unchanged rfl rfl⟩
  | db_get id' => exact ⟨_, rfl, h.unchanged rfl rfl⟩
  | db_set writer doc => exact h.written hallowed hguard
  | db_delete id' => exact ⟨_, rfl, h.deleted id'⟩
  | db_incr =>
    refine ⟨_, rfl, h.unchanged ?_ ?_⟩
    · change (w.fate.write w _).docs[id]? = _
      rw [Fate.write_eq]
      split_ifs <;> rfl
    · change (w.fate.write w _).history = _
      rw [Fate.write_eq]
      split_ifs <;> rfl
  | publish_fired m payload => exact ⟨_, rfl, h.dispatched hallowed⟩
  | call_action m name params => exact ⟨_, rfl, h.dispatched hallowed⟩
  | reply result => exact ⟨_, rfl, h.unchanged rfl rfl⟩

theorem onceInv_start (spawn : Nat → Spawn) :
    OnceInv spawn id (fun i => .start (spawn i)) { w with history := .empty } := by
  constructor
  · constructor
    · exact fun i => rfl
    · exact fun i => rfl
    · exact fun i => by simp [History.empty, Local.start]
    · exact fun i => by simp [History.empty, Local.start]
  · constructor
    · exact Nat.zero_le 1
    · exact fun _ => ⟨rfl, rfl⟩

/-- A one-shot is dispatched at most once since its last acknowledged `schedule_set`, if no two scans
    have it listed at a time and no unfired document is stored, or left stored, once a fire of it is
    marked. -/
theorem once_fires_at_most_once {w₀ : World} {trace : List TaskLabel} {p : Tasks}
    (hrun : Run (Where (fun p l => Guarded c spawn id p.world l) (TaskStep c spawn))
      (.start c spawn w₀) trace p) : p.world.history.fired id ≤ 1 := by
  have hinv : PoolInv (fireProtocol c id) (fun _ _ _ => True) (fun g _ w => OnceInv spawn id g w)
      trace p := by
    refine hrun.invariant ?_ fun trace p l p' hp hstep => ?_
    · exact ⟨fun i => .start (spawn i), onceInv_start spawn, fun i => obeys_task (spawn i)⟩
    · refine hp.step ?_ ?_ (hstep.1.where _ hstep.2)
      · intro g trace w i e r w' h hallowed hw
        exact onceInv_act h hallowed hw.1 hw.2
      · rintro g trace w l w' h ⟨rfl, -⟩
        exact ⟨h.known, h.counted.once, h.counted.armed⟩
  obtain ⟨g, h, -⟩ := hinv
  have honce := h.counted.once
  omega

/-! ## Two scans -/

/-- The one-shot that the first task sets, due at one second. -/
def reminder : NewSchedule where
  id := some "call"
  name := none
  enabled := true
  trigger := .Once 1000
  fire := .Event .null

/-- A request that sets a schedule, and then the ticks of the timer. -/
def setAndTicks (new : NewSchedule) : Nat → Spawn
  | 0 => .request (.Set new)
  | _ => .tick

def emptyWorld : World where
  docs := ∅
  keyed := World.keyed_empty
  next_id := 0
  clock := 0
  fate := .ok
  history := .empty

/-- The tasks move as they are told. -/
def runTasks (cond : World → TaskLabel → Prop) [∀ w l, Decidable (cond w l)]
    (requests : List TaskRequest) : Option (List TaskLabel × Tasks) :=
  runOf (answerTask .minutely (setAndTicks reminder) cond)
    (.start .minutely (setAndTicks reminder) emptyWorld) requests

theorem run_runTasks {cond : World → TaskLabel → Prop} [∀ w l, Decidable (cond w l)]
    {requests : List TaskRequest} {r : List TaskLabel × Tasks} (h : runTasks cond requests = some r) :
    Run (Where (fun p l => cond p.world l) (TaskStep .minutely (setAndTicks reminder)))
      (.start .minutely (setAndTicks reminder) emptyWorld) r.1 r.2 :=
  run_runOf (fun _ _ _ _ h => taskStep_answerTask h) h

/-- The request is answered; one second later a scan fires the schedule, and the next one finds it
    fired. -/
def scansApart : List TaskRequest :=
  List.replicate 4 (.act 0) ++ [.turn 1000 .ok] ++ List.replicate 5 (.act 1) ++ [.turn 31000 .ok] ++
    List.replicate 3 (.act 2)

theorem once_fires_at_most_once_sample : ∃ r,
    runTasks (Guarded .minutely (setAndTicks reminder) "call") scansApart = some r ∧
    r.2.world.history.dispatches "call" ≠ [] ∧ r.2.world.history.fired "call" ≤ 1 := by
  have hsome : ((runTasks (Guarded .minutely (setAndTicks reminder) "call") scansApart).any fun r =>
      r.2.world.history.dispatches "call" ≠ []) = true := by
    decide
  obtain ⟨r, hr, hdispatches⟩ := (Option.any_eq_true _ _).mp hsome
  exact ⟨r, hr, of_decide_eq_true hdispatches, once_fires_at_most_once (run_runTasks hr)⟩

/-- The second scan lists the schedule before the first one has marked it. -/
def scansTogether : List TaskRequest :=
  List.replicate 4 (.act 0) ++ [.turn 1000 .ok] ++ List.replicate 3 (.act 1) ++
    List.replicate 3 (.act 2) ++ List.replicate 2 (.act 1) ++ List.replicate 2 (.act 2)

/-- The schedule is set once and dispatched twice. -/
theorem overlapping_scans_fire_twice : ∃ trace p,
    Run (TaskStep .minutely (setAndTicks reminder)) (.start .minutely (setAndTicks reminder) emptyWorld)
      trace p ∧ p.world.history.fired "call" = 2 := by
  have hsome : ((runTasks (fun _ _ => True) scansTogether).any fun r =>
      r.2.world.history.fired "call" = 2) = true := by
    decide
  obtain ⟨r, hr, hfired⟩ := (Option.any_eq_true _ _).mp hsome
  exact ⟨r.1, r.2, (run_runTasks hr).mono fun _ _ _ hl => hl.1, of_decide_eq_true hfired⟩

end Scheduler
