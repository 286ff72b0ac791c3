import VynkorPlugins.Scheduler.World

/-!
# Missed occurrences

What a scan does with one schedule while no other task moves. The mark of a dispatch says for which
instant it was made, so the next one is computed from that instant and not from the time of the scan.
-/

namespace Scheduler

open Async Transition

variable {c : Crates} {id : String} {w w' w₁ : World} {now_ms : Int64}

/-! ## One fire -/

/-- The timing of the stored document. -/
def World.timing (w : World) (id : String) : Option Timing :=
  w.docs[id]?.map ScheduleDoc.timing

/-- Nothing has become of a schedule. -/
structure Kept (id : String) (w w' : World) : Prop where
  timing : w'.timing id = w.timing id
  dispatches : w'.history.dispatches id = w.history.dispatches id

theorem Kept.refl (id : String) (w : World) : Kept id w w := ⟨rfl, rfl⟩

theorem Kept.trans (h : Kept id w w₁) (h' : Kept id w₁ w') : Kept id w w' :=
  ⟨h'.timing.trans h.timing, h'.dispatches.trans h.dispatches⟩

/-- What a fire makes of its schedule. -/
structure Fired (now_ms : Int64) (fire : DueFire) (w w' : World) (marked : Bool) : Prop where
  timing : w'.timing fire.doc.id =
    if marked then some (fire.marked_doc now_ms).timing else w.timing fire.doc.id
  dispatches : w'.history.dispatches fire.doc.id =
    { now_ms, scheduled_for_ms := fire.scheduled_for_ms, marked } ::
      w.history.dispatches fire.doc.id

theorem timing_written {doc : ScheduleDoc} {fate : Fate} {clock : Int64} {history : History} :
    ({ fate.write (w.turn clock fate) ((w.turn clock fate).put doc) with history } : World).timing id =
      if fate.done = true ∧ doc.id = id then some doc.timing else w.timing id := by
  unfold World.timing
  rw [Fate.write_eq]
  cases fate.done with
  | false => rfl
  | true =>
    change ((w.docs.insert doc.id doc)[id]?).map _ = _
    rw [Table.getElem?_insert_ite]
    by_cases hid : doc.id = id
    · simp [hid]
    · simp [hid]

/-- An error is recorded in the document as it is stored. -/
theorem kept_record_last_error {schedule error : String} {r : Option (Except String Unit)}
    (h : Exec (Alone c) w (record_last_error schedule error) r w') : Kept id w w' := by
  unfold record_last_error at h
  obtain ⟨found, w₁, ⟨clock, fate, hget⟩, h⟩ := exec_call_iff.mp h
  obtain ⟨hfound, rfl⟩ := Prod.mk.inj hget
  change fate.answer w.docs[schedule]? = found at hfound
  have hturn : Kept id w (w.turn clock fate) := ⟨rfl, rfl⟩
  rcases found with e | (_ | doc)
  · obtain ⟨-, rfl⟩ := exec_done_iff.mp h
    exact hturn
  · obtain ⟨-, rfl⟩ := exec_done_iff.mp h
    exact hturn
  dsimp only [Async.bind] at h
  cases hmsg : Rust.truncate error MAX_ERROR_BYTES with
  | none =>
    rw [hmsg] at h
    obtain ⟨-, rfl⟩ := exec_done_iff.mp h
    exact hturn
  | some msg =>
    rw [hmsg] at h
    obtain ⟨now, w₂, ⟨clock', fate', hnow⟩, h⟩ := exec_call_iff.mp h
    obtain ⟨-, rfl⟩ := Prod.mk.inj hnow
    obtain ⟨stored, w₃, ⟨clock'', fate'', hput⟩, h⟩ := exec_call_iff.mp h
    obtain ⟨-, rfl⟩ := Prod.mk.inj hput
    obtain ⟨-, rfl⟩ := exec_done_iff.mp h
    obtain ⟨-, hdoc⟩ := Fate.answer_eq_ok_iff.mp hfound
    refine ⟨timing_written.trans ?_, rfl⟩
    split_ifs with hid
    · obtain ⟨-, rfl⟩ := hid
      have hkey := w.keyed schedule doc hdoc
      change some doc.timing = w.docs[doc.id]?.map ScheduleDoc.timing
      rw [hkey, hdoc]
      rfl
    · rfl

/-- A marked fire is dispatched. -/
theorem exec_deliver {marked : MarkedFire} {r : Option Unit}
    (h : Exec (Alone c) w (deliver marked) r w') :
    Kept id { w with history := w.history.dispatch 0 marked } w' := by
  have hturn : ∀ clock fate, Kept id { w with history := w.history.dispatch 0 marked }
      { w.turn clock fate with history := w.history.dispatch 0 marked } :=
    fun _ _ => ⟨rfl, rfl⟩
  unfold deliver at h
  split at h
  · obtain ⟨_, w₁, ⟨clock, fate, hpublish⟩, h⟩ := exec_call_iff.mp h
    obtain ⟨-, rfl⟩ := Prod.mk.inj hpublish
    obtain ⟨-, rfl⟩ := exec_done_iff.mp h
    exact hturn clock fate
  · obtain ⟨answer, w₁, ⟨clock, fate, hcall⟩, h⟩ := exec_call_iff.mp h
    obtain ⟨-, rfl⟩ := Prod.mk.inj hcall
    rcases answer with e | _
    · change Exec _ _ (record_last_error marked.doc.id e >>= _) _ _ at h
      obtain ⟨recorded, w₂, hrecord, h⟩ := exec_bind_iff.mp h
      have hkept := (hturn clock fate).trans (kept_record_last_error hrecord)
      rcases recorded with _ | _
      · obtain ⟨-, rfl⟩ := exec_done_iff.mp h
        exact hkept
      · obtain ⟨-, rfl⟩ := exec_done_iff.mp h
        exact hkept
    · obtain ⟨-, rfl⟩ := exec_done_iff.mp h
      exact hturn clock fate

theorem mark_stored (h : History) (i : Nat) (doc : ScheduleDoc) (done : Bool) :
    (h.mark i doc done).stored i = done ∧ (h.mark i doc done).dispatches = h.dispatches := by
  unfold History.mark
  split_ifs
  · exact ⟨Function.update_self i done h.stored, rfl⟩
  · exact ⟨Function.update_self i done h.stored, rfl⟩

/-- A schedule is marked and dispatched once, and nothing becomes of the other ones. -/
theorem exec_fire_due {fire : DueFire} {r : Option Unit}
    (h : Exec (Alone c) w (fire_due now_ms fire) r w') :
    (∃ marked, Fired now_ms fire w w' marked) ∧ ∀ id, fire.doc.id ≠ id → Kept id w w' := by
  unfold fire_due mark_fired at h
  obtain ⟨stored, w₁, ⟨clock, fate, hput⟩, h⟩ := exec_call_iff.mp h
  obtain ⟨-, rfl⟩ := Prod.mk.inj hput
  change Exec _ _ (deliver (fire.marked now_ms)) _ _ at h
  obtain ⟨hstored, hdispatches⟩ := mark_stored w.history 0 (fire.marked_doc now_ms) fate.done
  constructor
  · refine ⟨fate.done, ?_, ?_⟩
    · refine (exec_deliver h).timing.trans (timing_written.trans ?_)
      by_cases hdone : fate.done = true
      · rw [if_pos ⟨hdone, rfl⟩, if_pos hdone]
      · rw [if_neg (fun h => hdone h.1), if_neg hdone]
    · refine (exec_deliver h).dispatches.trans ((Function.update_self _ _ _).trans ?_)
      change Dispatch.mk now_ms fire.scheduled_for_ms
        ((w.history.mark 0 (fire.marked_doc now_ms) fate.done).stored 0) ::
          (w.history.mark 0 (fire.marked_doc now_ms) fate.done).dispatches fire.doc.id = _
      rw [hstored, hdispatches]
  · intro id hne
    refine ⟨(exec_deliver h).timing.trans (timing_written.trans ?_), ?_⟩
    · exact if_neg fun h => hne h.2
    · refine (exec_deliver h).dispatches.trans ((Function.update_of_ne hne.symm _ _).trans ?_)
      exact congrFun hdispatches id

/-! ## One scan -/

variable {fires : List DueFire}

/-- What a scan makes of a schedule: nothing, or the fire that it has listed. -/
inductive Outcome (now_ms : Int64) (fires : List DueFire) (id : String) (w w' : World) : Prop
  | kept (h : Kept id w w')
  | fired {fire : DueFire} {marked : Bool} (hmem : fire ∈ fires) (hid : fire.doc.id = id)
      (h : Fired now_ms fire w w' marked)

theorem Outcome.tail {fire : DueFire} (hkept : Kept id w w₁) (h : Outcome now_ms fires id w₁ w') :
    Outcome now_ms (fire :: fires) id w w' := by
  cases h with
  | kept h => exact .kept (hkept.trans h)
  | @fired fire' marked hmem hid h =>
    subst hid
    have hboth : Fired now_ms fire' w w' marked := by
      refine ⟨?_, ?_⟩
      · rw [h.timing, hkept.timing]
      · rw [h.dispatches, hkept.dispatches]
    exact .fired (List.mem_cons_of_mem _ hmem) rfl hboth

theorem exec_fire_all (id : String) {r : Option Unit} (hnodup : (fires.map fun fire => fire.doc.id).Nodup)
    (h : Exec (Alone c) w (fire_all now_ms fires) r w') :
    Outcome now_ms fires id w w' ∧
      (id ∉ fires.map (fun fire => fire.doc.id) → Kept id w w') := by
  induction fires generalizing w with
  | nil =>
    obtain ⟨-, rfl⟩ := exec_done_iff.mp h
    exact ⟨.kept (.refl id _), fun _ => .refl id _⟩
  | cons fire fires ih =>
    rw [List.map_cons, List.nodup_cons] at hnodup
    unfold fire_all at h
    obtain ⟨fired, w₁, hfire, h⟩ := exec_bind_iff.mp h
    obtain ⟨⟨marked, hfired⟩, hother⟩ := exec_fire_due hfire
    have hrest : Outcome now_ms fires id w₁ w' ∧
        (id ∉ fires.map (fun fire => fire.doc.id) → Kept id w₁ w') := by
      rcases fired with _ | _
      · obtain ⟨-, rfl⟩ := exec_done_iff.mp h
        exact ⟨.kept (.refl id w'), fun _ => .refl id w'⟩
      · exact ih hnodup.2 h
    by_cases hid : fire.doc.id = id
    · subst hid
      have hkept := hrest.2 hnodup.1
      have hboth : Fired now_ms fire w w' marked :=
        ⟨hkept.timing.trans hfired.timing, hkept.dispatches.trans hfired.dispatches⟩
      refine ⟨.fired List.mem_cons_self rfl hboth, fun hnot => ?_⟩
      · exact absurd (List.mem_cons_self) hnot
    · refine ⟨hrest.1.tail (hother id hid), fun hnot => (hother id hid).trans (hrest.2 ?_)⟩
      exact fun hmem => hnot (List.mem_cons_of_mem _ hmem)

/-- A scan of a schedule that is due at an instant dispatches it for this instant, if it does. -/
inductive ScanOutcome (c : Crates) (now_ms : Int64) (id : String) (w w' : World) : Prop
  | kept (h : Kept id w w')
  | fired {fire : DueFire} {marked : Bool} (hdoc : w.docs[id]? = some fire.doc)
      (hdue : c.due_fire now_ms fire.doc = some fire) (h : Fired now_ms fire w w' marked)

theorem exec_scan_due (id : String) {r : Option (Except String Nat)}
    (h : Exec (Alone c) w (scan_due c now_ms) r w') : ScanOutcome c now_ms id w w' := by
  have hturn : ∀ clock fate, Kept id w (w.turn clock fate) := fun _ _ => ⟨rfl, rfl⟩
  unfold scan_due Db.list at h
  obtain ⟨keys, w₁, ⟨clock, fate, hkeys⟩, h⟩ := exec_call_iff.mp h
  obtain ⟨-, rfl⟩ := Prod.mk.inj hkeys
  rcases keys with e | keys
  · obtain ⟨-, rfl⟩ := exec_done_iff.mp h
    exact .kept (hturn clock fate)
  change Exec _ _ ((if keys = [] then _ else _) >>= _) _ _ at h
  split_ifs at h
  · obtain ⟨-, rfl⟩ := exec_done_iff.mp h
    exact .kept (hturn clock fate)
  obtain ⟨docs, w₂, ⟨clock', fate', hget⟩, h⟩ := exec_call_iff.mp h
  obtain ⟨hdocs, hw₂⟩ := Prod.mk.inj hget
  change fate'.answer (w.rows keys) = docs at hdocs
  have hkept : Kept id w w₂ := by
    rw [← hw₂]
    cases fate' with
    | ok => exact ⟨rfl, rfl⟩
    | refused e => exact ⟨rfl, rfl⟩
    | applied e => exact ⟨rfl, rfl⟩
  rcases docs with e | docs
  · obtain ⟨-, rfl⟩ := exec_done_iff.mp h
    exact .kept hkept
  obtain ⟨-, rfl⟩ := Fate.answer_eq_ok_iff.mp hdocs
  change Exec _ _ (fire_all now_ms (c.due_schedules (w.rows keys) now_ms) >>= _) _ _ at h
  obtain ⟨fired, w₃, hfires, h⟩ := exec_bind_iff.mp h
  obtain rfl : w' = w₃ := by
    rcases fired with _ | _
    · exact (exec_done_iff.mp h).2
    · exact (exec_done_iff.mp h).2
  obtain ⟨houtcome, -⟩ := exec_fire_all id (nodup_due_schedules (w.nodup_rows keys)) hfires
  cases houtcome with
  | kept h' => exact .kept (hkept.trans h')
  | @fired fire marked hmem hid h' =>
    subst hid
    obtain ⟨hrow, hdue⟩ := mem_due_schedules.mp hmem
    have hboth : Fired now_ms fire w w' marked := by
      refine ⟨?_, ?_⟩
      · rw [h'.timing, hkept.timing]
      · rw [h'.dispatches, hkept.dispatches]
    exact .fired (w.mem_rows hrow) hdue hboth

/-! ## Scans one after the other -/

variable {s s' : Scans}

/-- What the stored document knows of the last dispatch. -/
structure ScansInv (id : String) (s : Scans) : Prop where
  log : Collapsed s.log
  ordered : s.log.Pairwise fun r' r => r.now_ms < r'.now_ms
  last : ∀ r ∈ s.last, ∀ d ∈ r.dispatches, d.marked = true →
    ∀ doc, s.world.docs[id]? = some doc → doc.last_fired_ms = some d.scheduled_for_ms

/-- The document after a scan has the timing of one that was stored before. -/
theorem last_fired_of_timing {doc : ScheduleDoc} {timing : Option Timing}
    (h : w'.timing id = timing) (hdoc : w'.docs[id]? = some doc) :
    ∃ t, timing = some t ∧ doc.last_fired_ms = t.last_fired_ms := by
  refine ⟨doc.timing, ?_, rfl⟩
  rw [← h]
  unfold World.timing
  rw [hdoc]
  rfl

/-- The last scan that dispatched the schedule comes after all the others. -/
theorem le_last {log : List ScanRecord} {r : ScanRecord}
    (hordered : log.Pairwise fun r' r => r.now_ms < r'.now_ms) (hr : r ∈ log)
    (hdispatches : r.dispatches ≠ []) :
    ∃ last, log.find? (fun r => !r.dispatches.isEmpty) = some last ∧ r.now_ms ≤ last.now_ms := by
  induction log with
  | nil => cases hr
  | cons r' log ih =>
    rw [List.pairwise_cons] at hordered
    rw [List.find?_cons]
    cases hempty : r'.dispatches.isEmpty with
    | true =>
      rcases List.mem_cons.mp hr with rfl | hr
      · exact absurd (List.isEmpty_iff.mp hempty) hdispatches
      · exact ih hordered.2 hr
    | false =>
      refine ⟨r', rfl, ?_⟩
      rcases List.mem_cons.mp hr with rfl | hr
      · exact Int64.le_refl _
      · exact Int64.le_of_lt (hordered.1 r hr)

/-- The next dispatch is made for the occurrence that is stored as the next one. -/
theorem ScansInv.lt_of_due (h : ScansInv id s) (hcond : NoneMissed c id s now_ms) {fire : DueFire}
    (hdoc : s.world.docs[id]? = some fire.doc) (hdue : c.due_fire now_ms fire.doc = some fire) :
    ∀ r ∈ s.log, r.dispatches ≠ [] → r.now_ms < fire.scheduled_for_ms := by
  intro r hr hdispatches
  obtain ⟨last, hlast, hle⟩ := le_last h.ordered hr hdispatches
  have hsome : last.dispatches ≠ [] := by simpa using List.find?_some hlast
  obtain ⟨d, hd⟩ := List.exists_mem_of_ne_nil _ hsome
  obtain ⟨hmarked, hnext⟩ := hcond fire.doc hdoc (Option.isSome_of_eq_some hdue) last hlast d hd
  have hstored := h.last last hlast d hd hmarked fire.doc hdoc
  have hsame : { fire.doc with last_fired_ms := some d.scheduled_for_ms } = fire.doc := by
    rw [← hstored]
  rw [hsame] at hnext
  exact Int64.lt_of_le_of_lt hle (hnext _ (due_fire_eq_some_iff.mp hdue).2.1)

/-- A scan that finds nothing due. -/
theorem ScansInv.kept (h : ScansInv id s) (hlater : ∀ r ∈ s.log, r.now_ms < now_ms)
    (hkept : Kept id { s.world with history := .empty } w) :
    ScansInv id { world := w, log := { now_ms, dispatches := w.history.dispatches id } :: s.log } := by
  have hnone : w.history.dispatches id = [] := hkept.dispatches
  rw [hnone]
  refine ⟨⟨?_, ?_⟩, List.pairwise_cons.mpr ⟨hlater, h.ordered⟩, fun r hr d hd hmarked doc hdoc => ?_⟩
  · intro r hr
    rcases List.mem_cons.mp hr with rfl | hr
    · exact Nat.zero_le 1
    · exact h.log.once r hr
  · refine List.pairwise_cons.mpr ⟨fun r hr hr' d hd => ?_, h.log.later⟩
    cases hd
  · obtain ⟨t, ht, hfired⟩ := last_fired_of_timing hkept.timing hdoc
    obtain ⟨doc', hdoc', rfl⟩ := Option.map_eq_some_iff.mp ht
    rw [hfired]
    exact h.last r hr d hd hmarked doc' hdoc'

/-- A scan that fires the schedule. -/
theorem ScansInv.fired (h : ScansInv id s) (hlater : ∀ r ∈ s.log, r.now_ms < now_ms)
    (hcond : NoneMissed c id s now_ms) {fire : DueFire} {marked : Bool}
    (hdoc : s.world.docs[id]? = some fire.doc) (hdue : c.due_fire now_ms fire.doc = some fire)
    (hfired : Fired now_ms fire { s.world with history := .empty } w marked) :
    ScansInv id { world := w, log := { now_ms, dispatches := w.history.dispatches id } :: s.log } := by
  obtain rfl : fire.doc.id = id := s.world.keyed _ _ hdoc
  have hone : w.history.dispatches fire.doc.id =
    [{ now_ms, scheduled_for_ms := fire.scheduled_for_ms, marked }] := hfired.dispatches
  rw [hone]
  refine ⟨⟨?_, ?_⟩, List.pairwise_cons.mpr ⟨hlater, h.ordered⟩, fun r hr d hd hmarked doc hdoc' => ?_⟩
  · intro r hr
    rcases List.mem_cons.mp hr with rfl | hr
    · exact Nat.le_refl 1
    · exact h.log.once r hr
  · refine List.pairwise_cons.mpr ⟨fun r hr hdispatches d hd => ?_, h.log.later⟩
    rw [List.mem_singleton.mp hd]
    exact h.lt_of_due hcond hdoc hdue r hr hdispatches
  · obtain rfl := Option.some.inj (show some _ = some r from hr)
    obtain rfl := List.mem_singleton.mp hd
    have htiming := hfired.timing
    rw [if_pos hmarked] at htiming
    obtain ⟨t, ht, hfired'⟩ := last_fired_of_timing htiming hdoc'
    obtain rfl := Option.some.inj ht
    exact hfired'

theorem scansInv_step (h : ScansInv id s) (hstep : ScanStep c id s now_ms s')
    (hcond : NoneMissed c id s now_ms) : ScansInv id s' := by
  cases hstep with
  | scan hlater hscan =>
    cases exec_scan_due id hscan with
    | kept hkept => exact h.kept hlater hkept
    | fired hdoc hdue hfired => exact h.fired hlater hcond hdoc hdue hfired

/-- Of the instants up to a time one is made up for. -/
theorem Collapsed.catchUp_le {log : List ScanRecord} (h : Collapsed log) (t : Int64) :
    (catchUp t log).length ≤ 1 := by
  obtain ⟨honce, hlater⟩ := h
  induction log with
  | nil => exact Nat.zero_le 1
  | cons r log ih =>
    rw [List.pairwise_cons] at hlater
    have hrest := ih (fun r' hr' => honce r' (List.mem_cons_of_mem _ hr')) hlater.2
    have hfirst := honce r List.mem_cons_self
    unfold catchUp at hrest ⊢
    rw [List.filter_cons]
    split_ifs with hle
    · rw [List.flatMap_cons, List.length_append]
      by_cases hearlier : ∃ r' ∈ log, t ≤ r'.now_ms ∧ r'.dispatches ≠ []
      · obtain ⟨r', hr', hle', hdispatches⟩ := hearlier
        have hnone : (r.dispatches.filter fun d => d.scheduled_for_ms ≤ t) = [] := by
          refine List.filter_eq_nil_iff.mpr fun d hd => ?_
          have hlt := Int64.lt_of_le_of_lt hle' (hlater.1 r' hr' hdispatches d hd)
          simpa using hlt
        rw [hnone]
        simpa using hrest
      · have hnone : (log.filter fun r => t ≤ r.now_ms).flatMap
            (fun r => r.dispatches.filter fun d => d.scheduled_for_ms ≤ t) = [] := by
          refine List.flatMap_eq_nil_iff.mpr fun r' hr' => ?_
          obtain ⟨hr', hle'⟩ := List.mem_filter.mp hr'
          have hempty : r'.dispatches = [] := by
            by_contra hne
            exact hearlier ⟨r', hr', of_decide_eq_true hle', hne⟩
          rw [hempty]
          rfl
        rw [hnone]
        have hle := List.length_filter_le (fun d => decide (d.scheduled_for_ms ≤ t)) r.dispatches
        rw [List.length_nil]
        omega
    · exact hrest

/-- Missed occurrences collapse, if each dispatch of the schedule is marked and made before its next
    occurrence, unless no later scan finds the schedule due. -/
theorem missed_occurrences_collapse {w₀ : World} {trace : List Int64} {s : Scans}
    (hrun : Run (Where (NoneMissed c id) (ScanStep c id)) { world := w₀, log := [] } trace s) :
    Collapsed s.log ∧ ∀ t, (catchUp t s.log).length ≤ 1 := by
  have hinv : ScansInv id s := by
    refine hrun.invariant_state (I := ScansInv id) ?_ fun s now_ms s' h hstep => ?_
    · refine ⟨⟨?_, List.Pairwise.nil⟩, List.Pairwise.nil, ?_⟩
      · exact fun r hr => nomatch hr
      · exact fun r hr => nomatch hr
    · exact scansInv_step h hstep.1 hstep.2
  exact ⟨hinv.log, hinv.log.catchUp_le⟩

/-! ## A schedule of every minute -/

/-- It was created at the start of the epoch. -/
def minuteDoc : ScheduleDoc where
  id := "ticker"
  name := none
  enabled := true
  trigger := .Cron "* * * * *" 0 none
  fire := .Event .null
  fired_once := false
  fire_count := 0
  last_fired_ms := none
  last_error := none
  created_at_ms := 0
  updated_at_ms := 0

def minuteWorld : World where
  docs := (∅ : Table String ScheduleDoc).insert "ticker" minuteDoc
  keyed id doc h := by
    rw [Table.getElem?_insert_ite] at h
    split_ifs at h with hid
    · obtain rfl := Option.some.inj h
      exact hid
    · simp at h
  next_id := 0
  clock := 0
  fate := .ok
  history := .empty

/-- Scans at the given times, in which each call succeeds. -/
def runScans (cond : Scans → Int64 → Prop) [∀ s t, Decidable (cond s t)] (times : List Int64) :
    Option (List Int64 × Scans) :=
  runOf (answerScan .minutely "ticker" cond) { world := minuteWorld, log := [] }
    (times.map fun t => (t, List.replicate 4 (t, .ok)))

theorem run_runScans {cond : Scans → Int64 → Prop} [∀ s t, Decidable (cond s t)]
    {times : List Int64} {r : List Int64 × Scans} (h : runScans cond times = some r) :
    Run (Where cond (ScanStep .minutely "ticker")) { world := minuteWorld, log := [] } r.1 r.2 :=
  run_runOf (fun _ _ _ _ h => scanStep_answerScan h) h

/-- Every minute is scanned once. -/
theorem missed_occurrences_collapse_sample : ∃ r,
    runScans (NoneMissed .minutely "ticker") [60000, 121000, 180000] = some r ∧
    (r.2.log.flatMap ScanRecord.dispatches).length = 3 ∧ Collapsed r.2.log ∧
    ∀ t, (catchUp t r.2.log).length ≤ 1 := by
  have hsome : ((runScans (NoneMissed .minutely "ticker") [60000, 121000, 180000]).any fun r =>
      (r.2.log.flatMap ScanRecord.dispatches).length = 3) = true := by
    decide
  obtain ⟨r, hr, hlength⟩ := (Option.any_eq_true _ _).mp hsome
  exact ⟨r, hr, of_decide_eq_true hlength, missed_occurrences_collapse (run_runScans hr)⟩

/-- After ten minutes without a scan the missed occurrences are dispatched one by one. -/
theorem missed_occurrences_catch_up : ∃ trace s,
    Run (ScanStep .minutely "ticker") { world := minuteWorld, log := [] } trace s ∧
    ¬ Collapsed s.log ∧ (catchUp 600000 s.log).length = 3 := by
  have hsome : ((runScans (fun _ _ => True) [600000, 601000, 602000]).any fun r =>
      (catchUp 600000 r.2.log).length = 3) = true := by
    decide
  obtain ⟨r, hr, hlength⟩ := (Option.any_eq_true _ _).mp hsome
  have hlength := of_decide_eq_true hlength
  refine ⟨r.1, r.2, (run_runScans hr).mono fun _ _ _ hl => hl.1, fun hcollapsed => ?_, hlength⟩
  have hle := hcollapsed.catchUp_le 600000
  omega

end Scheduler
