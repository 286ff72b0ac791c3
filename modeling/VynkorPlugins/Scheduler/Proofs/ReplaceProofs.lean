import VynkorPlugins.Scheduler.Proofs.CatchupProofs
import VynkorPlugins.Scheduler.Proofs.IdProofs

/-!
# Replaced schedules

A schedule that is set again keeps the time of its creation, which is what its first occurrence is
computed from.
-/

namespace Scheduler

open Async Transition

variable {c : Crates} {w w' w₁ : World} {now_ms : Int64} {id expr : String} {tz_offset_min : Int32}
  {tz : Option String}

/-! ## Occurrences -/

/-- The instants after another one are later. -/
def Crates.Strict (c : Crates) : Prop :=
  ∀ sched zone after_ms next, c.in_range after_ms = true →
    c.next_after sched zone after_ms = some next → after_ms < next

theorem Crates.Strict.occurrence (h : c.Strict) {sched : c.Schedule} {zone : Int32 ⊕ c.Tz}
    {after_ms next : Int64} (hnext : c.occurrence sched zone after_ms = .ok (some next)) :
    after_ms < next := by
  unfold Crates.occurrence at hnext
  split_ifs at hnext with hrange
  exact h sched zone after_ms next hrange (Except.ok.inj hnext)

theorem Crates.Strict.next_cron_after_ms (h : c.Strict) {after_ms next : Int64}
    (hnext : c.next_cron_after_ms expr tz_offset_min after_ms = .ok (some next)) :
    after_ms < next := by
  unfold Crates.next_cron_after_ms at hnext
  cases hoffset : fixed_offset tz_offset_min with
  | error e =>
    rw [hoffset] at hnext
    cases hnext
  | ok offset =>
    cases hsched : c.parse_expr expr with
    | error e =>
      rw [hoffset, hsched] at hnext
      cases hnext
    | ok sched =>
      rw [hoffset, hsched] at hnext
      exact h.occurrence hnext

theorem Crates.Strict.next_cron_after_ms_tz (h : c.Strict) {tz_str : String} {after_ms next : Int64}
    (hnext : c.next_cron_after_ms_tz expr tz_str after_ms = .ok (some next)) : after_ms < next := by
  unfold Crates.next_cron_after_ms_tz at hnext
  cases htz : c.parse_tz tz_str with
  | none =>
    rw [htz] at hnext
    cases hnext
  | some tz =>
    cases hsched : c.parse_expr expr with
    | error e =>
      rw [htz, hsched] at hnext
      cases hnext
    | ok sched =>
      rw [htz, hsched] at hnext
      exact h.occurrence hnext

theorem Crates.Strict.cron_after (h : c.Strict) {after_ms next : Int64}
    (hnext : c.cron_after expr tz_offset_min tz after_ms = some next) : after_ms < next := by
  unfold Crates.cron_after at hnext
  cases tz with
  | none =>
    dsimp only at hnext
    cases hok : c.next_cron_after_ms expr tz_offset_min after_ms with
    | error e =>
      rw [hok] at hnext
      cases hnext
    | ok found =>
      rw [hok] at hnext
      subst hnext
      exact h.next_cron_after_ms hok
  | some tz_str =>
    dsimp only at hnext
    cases hok : c.next_cron_after_ms_tz expr tz_str after_ms with
    | error e =>
      rw [hok] at hnext
      cases hnext
    | ok found =>
      rw [hok] at hnext
      subst hnext
      exact h.next_cron_after_ms_tz hok

/-! ## Later scans -/

/-- A schedule whose next occurrence is later than a time. -/
structure FreshTiming (c : Crates) (t created_at_ms : Int64) (timing : Timing) : Prop where
  trigger : ∃ expr tz_offset_min tz, timing.trigger = .Cron expr tz_offset_min tz ∧
    ∀ first, c.cron_after expr tz_offset_min tz created_at_ms = some first → t < first
  created : timing.created_at_ms = created_at_ms
  last : ∀ y, timing.last_fired_ms = some y → t < y

theorem FreshTiming.lt_next {t created_at_ms deadline : Int64} {doc : ScheduleDoc}
    (h : FreshTiming c t created_at_ms doc.timing) (hstrict : c.Strict)
    (hnext : c.next_fire_ms doc = some deadline) : t < deadline := by
  obtain ⟨⟨expr, tz_offset_min, tz, htrigger, hfirst⟩, hcreated, hlast⟩ := h
  change doc.trigger = _ at htrigger
  change doc.created_at_ms = _ at hcreated
  unfold Crates.next_fire_ms at hnext
  split at hnext
  · cases hnext
  rw [htrigger] at hnext
  change c.cron_after expr tz_offset_min tz (doc.last_fired_ms.getD doc.created_at_ms) = _ at hnext
  cases hfired : doc.last_fired_ms with
  | none =>
    rw [hfired, hcreated] at hnext
    exact hfirst deadline hnext
  | some y =>
    rw [hfired] at hnext
    exact Int64.lt_trans (hlast y hfired) (hstrict.cron_after hnext)

/-- The mark of a fire keeps it so. -/
theorem FreshTiming.marked {t created_at_ms : Int64} {fire : DueFire}
    (h : FreshTiming c t created_at_ms fire.doc.timing) (hlt : t < fire.scheduled_for_ms) :
    FreshTiming c t created_at_ms (fire.marked_doc now_ms).timing where
  trigger := h.trigger
  created := h.created
  last y hy := by
    obtain rfl := Option.some.inj hy
    exact hlt

/-- What the scans so far have dispatched, and what is left of the schedule. -/
structure FreshInv (c : Crates) (id : String) (t created_at_ms : Int64) (s : Scans) : Prop where
  timing : ∀ timing, s.world.timing id = some timing → FreshTiming c t created_at_ms timing
  log : ∀ r ∈ s.log, ∀ d ∈ r.dispatches, t < d.scheduled_for_ms

theorem freshInv_step {t created_at_ms : Int64} {s s' : Scans} (hstrict : c.Strict)
    (h : FreshInv c id t created_at_ms s) (hstep : ScanAt c id s now_ms s') :
    FreshInv c id t created_at_ms s' := by
  obtain ⟨htiming, hlog⟩ := h
  cases hstep with
  | scan hscan =>
    cases exec_scan_due id hscan with
    | kept hkept =>
      refine ⟨fun timing ht => htiming timing (hkept.timing.symm.trans ht), fun r hr d hd => ?_⟩
      rcases List.mem_cons.mp hr with rfl | hr
      · rw [hkept.dispatches] at hd
        cases hd
      · exact hlog r hr d hd
    | @fired fire marked hdoc hdue hfired =>
      obtain rfl : fire.doc.id = id := s.world.keyed _ _ hdoc
      have hstored : s.world.timing fire.doc.id = some fire.doc.timing := by
        unfold World.timing
        change s.world.docs[fire.doc.id]? = some fire.doc at hdoc
        rw [hdoc]
        rfl
      have hfresh := htiming _ hstored
      have hlt := hfresh.lt_next hstrict (due_fire_eq_some_iff.mp hdue).2.1
      constructor
      · intro timing ht
        have hafter := hfired.timing.symm.trans ht
        split_ifs at hafter
        · obtain rfl := Option.some.inj hafter
          exact hfresh.marked hlt
        · exact htiming timing hafter
      · intro r hr d hd
        rcases List.mem_cons.mp hr with rfl | hr
        · rw [hfired.dispatches] at hd
          obtain rfl := List.mem_singleton.mp hd
          exact hlt
        · exact hlog r hr d hd

/-! ## A scan whose calls succeed -/

variable {clock : Int64} {fire : DueFire} {fires : List DueFire}

/-- It goes on to the end of its list. -/
theorem run_fire_all (clock : Int64) (fires : List DueFire) (w : World) :
    (run (World.serveOk c clock) (fire_all now_ms fires) w).1 = some () := by
  induction fires generalizing w with
  | nil => rfl
  | cons fire fires ih =>
    have hfire (w : World) : (run (World.serveOk c clock) (fire_due now_ms fire) w).1 = some () := by
      unfold fire_due mark_fired
      show (run (World.serveOk c clock) (deliver (fire.marked now_ms)) _).1 = some ()
      unfold deliver
      split
      · rfl
      · rfl
    unfold fire_all
    rw [run_bind, hfire]
    exact ih _

/-- Each fire of the list is dispatched. -/
theorem dispatched_of_fire_all (hnodup : (fires.map fun fire => fire.doc.id).Nodup)
    (hmem : fire ∈ fires) (h : Exec (Alone c) w (fire_all now_ms fires) (some ()) w') :
    ∃ d ∈ w'.history.dispatches fire.doc.id, d.scheduled_for_ms = fire.scheduled_for_ms := by
  induction fires generalizing w with
  | nil => cases hmem
  | cons head fires ih =>
    rw [List.map_cons, List.nodup_cons] at hnodup
    unfold fire_all at h
    obtain ⟨fired, w₁, hfire, hrest⟩ := exec_bind_iff.mp h
    obtain ⟨⟨marked, hfired⟩, -⟩ := exec_fire_due hfire
    rcases fired with _ | _
    · cases (exec_done_iff.mp hrest).1
    change Exec _ _ (fire_all now_ms fires) _ _ at hrest
    rcases List.mem_cons.mp hmem with rfl | hmem
    · have hkept := (exec_fire_all fire.doc.id hnodup.2 hrest).2 hnodup.1
      refine ⟨{ now_ms, scheduled_for_ms := fire.scheduled_for_ms, marked }, ?_, rfl⟩
      rw [hkept.dispatches, hfired.dispatches]
      exact List.mem_cons_self
    · exact ih hnodup.2 hmem hrest

/-- A schedule that is due is dispatched. -/
theorem dispatched_of_due {doc : ScheduleDoc} (hdoc : w.docs[id]? = some doc)
    (hdue : c.due_fire now_ms doc = some fire) :
    ∃ result w', Exec (Alone c) w (scan_due c now_ms) result w' ∧
      ∃ d ∈ w'.history.dispatches id, d.scheduled_for_ms = fire.scheduled_for_ms := by
  obtain rfl : fire.doc = doc := (due_fire_eq_some_iff.mp hdue).1
  obtain rfl : fire.doc.id = id := w.keyed id _ hdoc
  have hkey : fire.doc.id ∈ w.docs.keys := by
    rw [Std.ExtTreeMap.mem_keys]
    exact Std.ExtTreeMap.mem_iff_isSome_getElem?.mpr (by rw [hdoc]; rfl)
  have hrow : fire.doc ∈ w.rows w.docs.keys :=
    List.mem_map.mpr ⟨(fire.doc.id, fire.doc), Table.mem_selectWhere.mpr ⟨hdoc, decide_eq_true hkey⟩, rfl⟩
  have hmem : fire ∈ c.due_schedules (w.rows w.docs.keys) now_ms := mem_due_schedules.mpr ⟨hrow, hdue⟩
  have hnodup : ((c.due_schedules (w.rows w.docs.keys) now_ms).map fun fire => fire.doc.id).Nodup :=
    nodup_due_schedules (w.nodup_rows w.docs.keys)
  -- the world in which the scan fires what it has listed
  let listed : World :=
    { w.turn now_ms .ok with history := w.history.list 0 c (w.rows w.docs.keys) .tick }
  obtain ⟨w', hfires⟩ : ∃ w', Exec (Alone c) listed
      (fire_all now_ms (c.due_schedules (w.rows w.docs.keys) now_ms)) (some ()) w' := by
    have hrun := exec_serveOk c now_ms
      (fire_all now_ms (c.due_schedules (w.rows w.docs.keys) now_ms)) listed
    rw [run_fire_all] at hrun
    exact ⟨_, hrun⟩
  refine ⟨some (.ok (c.due_schedules (w.rows w.docs.keys) now_ms).length), w', ?_,
    dispatched_of_fire_all hnodup hmem hfires⟩
  unfold scan_due Db.list
  refine .call ⟨now_ms, .ok, rfl⟩ ?_
  show Exec _ _ ((if w.docs.keys = [] then _ else _) >>= _) _ _
  rw [if_neg (List.ne_nil_of_mem hkey)]
  refine .call ⟨now_ms, .ok, rfl⟩ ?_
  show Exec _ listed (fire_all now_ms (c.due_schedules (w.rows w.docs.keys) now_ms) >>= _) _ _
  exact exec_bind_iff.mpr ⟨_, _, hfires, .done⟩

/-- A schedule that replaces another one starts fresh just if its first occurrence after the creation of
    the replaced one is later than the request. -/
theorem replaced_cron_starts_fresh_iff (hstrict : c.Strict) {old : ScheduleDoc} {new : NewSchedule}
    {set_at_ms : Int64} {reply : Reply} (hold : w.docs[id]? = some old) (hid : new.id = some id)
    (henabled : new.enabled = true) (htrigger : new.trigger = .Cron expr tz_offset_min tz)
    (hset : Exec (Alone c) w (schedule_set new set_at_ms) (.ok reply) w') :
    StartsFresh c id set_at_ms w' ↔
      ∀ first, c.cron_after expr tz_offset_min tz old.created_at_ms = some first →
        set_at_ms < first := by
  obtain ⟨doc, hdoc, htiming⟩ : ∃ doc, w'.docs[id]? = some doc ∧
      doc.timing = { enabled := true, trigger := .Cron expr tz_offset_min tz, fired_once := false,
                     last_fired_ms := none, created_at_ms := old.created_at_ms } := by
    cases exec_schedule_set hset with
    | failed _ _ herror => exact absurd rfl (herror reply)
    | generated hnone =>
      rw [hid] at hnone
      cases hnone
    | given hsame hwritten =>
      obtain rfl := Option.some.inj (hid.symm.trans hsame)
      obtain ⟨-, rfl⟩ := hwritten.reply _ rfl
      refine ⟨_, (hwritten.docs id).trans (if_pos ⟨rfl, rfl⟩), ?_⟩
      rw [hold]
      show Timing.mk new.enabled new.trigger _ _ _ = _
      rw [henabled, htrigger]
      rfl
  constructor
  · intro hfresh first hfirst
    by_contra hlate
    have hnext : c.next_fire_ms doc = some first := by
      unfold Crates.next_fire_ms
      obtain ⟨hen, htr, -, hlast, hcreated⟩ := Timing.mk.inj htiming
      rw [hen, htr, hlast, hcreated]
      exact hfirst
    have hdue : c.due_fire set_at_ms doc = some
        { doc, scheduled_for_ms := first, late := decide (first < set_at_ms) } :=
      due_fire_eq_some_iff.mpr ⟨rfl, hnext, Int64.not_lt.mp hlate, rfl⟩
    have hempty : ({ w' with history := .empty } : World).docs[id]? = some doc := hdoc
    obtain ⟨result, w₁, hscan, d, hd, hinstant⟩ := dispatched_of_due hempty hdue
    have hrun : Run (Where (fun _ now_ms => set_at_ms ≤ now_ms) (ScanAt c id))
        { world := w', log := [] } [set_at_ms] _ :=
      .step .start ⟨.scan hscan, Int64.le_refl set_at_ms⟩
    have hlt := hfresh _ _ hrun _ List.mem_cons_self d hd
    rw [hinstant] at hlt
    exact hlate hlt
  · intro hfirst trace s hrun
    have hinv : FreshInv c id set_at_ms old.created_at_ms s := by
      refine hrun.invariant_state (I := FreshInv c id set_at_ms old.created_at_ms) ?_
        fun s t s' h hstep => freshInv_step hstrict h hstep.1
      refine ⟨fun timing ht => ?_, fun r hr => nomatch hr⟩
      obtain ⟨doc', hdoc', rfl⟩ := Option.map_eq_some_iff.mp ht
      obtain rfl := Option.some.inj (hdoc.symm.trans hdoc')
      rw [htiming]
      exact ⟨⟨expr, tz_offset_min, tz, rfl, hfirst⟩, rfl, fun y hy => nomatch hy⟩
    exact hinv.log

/-! ## A schedule of every minute -/

theorem strict_minutely : Crates.minutely.Strict := by
  intro sched zone after_ms next hrange hnext
  obtain rfl := Option.some.inj hnext
  obtain ⟨hlow, hhigh⟩ := Bool.and_eq_true_iff.mp hrange
  have hlow := Int64.le_iff_toInt_le.mp (of_decide_eq_true hlow)
  have hhigh := Int64.le_iff_toInt_le.mp (of_decide_eq_true hhigh)
  change -8334601228800000 ≤ after_ms.toInt at hlow
  change after_ms.toInt ≤ 8210266876799999 at hhigh
  rw [Int64.lt_iff_toInt_lt, Int64.toInt_ofInt_of_le]
  · omega
  · omega
  · omega

/-- Every minute, under the id of the schedule that was created at the start of the epoch. -/
def everyMinute : NewSchedule where
  id := some "ticker"
  name := none
  enabled := true
  trigger := .Cron "* * * * *" 0 none
  fire := .Event .null

/-- What a request is answered at a time, when all its calls succeed. -/
def setEveryMinute (set_at_ms : Int64) : Except String Reply × World :=
  run (World.serveOk .minutely set_at_ms) (schedule_set everyMinute set_at_ms) minuteWorld

theorem exec_setEveryMinute (set_at_ms : Int64) :
    Exec (Alone .minutely) minuteWorld (schedule_set everyMinute set_at_ms)
      (setEveryMinute set_at_ms).1 (setEveryMinute set_at_ms).2 :=
  exec_serveOk .minutely set_at_ms _ minuteWorld

/-- Half a minute after the creation of the replaced schedule nothing was missed yet. -/
theorem replaced_cron_starts_fresh_iff_sample : ∃ reply,
    (setEveryMinute 30000).1 = .ok reply ∧
    StartsFresh .minutely "ticker" 30000 (setEveryMinute 30000).2 := by
  have hok : (setEveryMinute 30000).1.isOk = true := by
    decide
  cases hreply : (setEveryMinute 30000).1 with
  | error e =>
    rw [hreply] at hok
    cases hok
  | ok reply =>
    have hset := exec_setEveryMinute 30000
    rw [hreply] at hset
    have hold : minuteWorld.docs["ticker"]? = some minuteDoc := by
      unfold minuteWorld
      simp
    have hfirst : Crates.minutely.cron_after "* * * * *" 0 none minuteDoc.created_at_ms = some 60000 := by
      decide
    refine ⟨reply, rfl, ?_⟩
    refine (replaced_cron_starts_fresh_iff strict_minutely hold rfl rfl rfl hset).mpr ?_
    intro first h
    obtain rfl := Option.some.inj (hfirst.symm.trans h)
    decide

/-- After ten minutes a scan dispatches the replaced schedule for its first minute. -/
theorem replaced_cron_fires_old_instant : ∃ reply,
    (setEveryMinute 600000).1 = .ok reply ∧
    ∃ trace s,
      Run (Where (fun _ now_ms => 600000 ≤ now_ms) (ScanAt .minutely "ticker"))
        { world := (setEveryMinute 600000).2, log := [] } trace s ∧
      ∃ r ∈ s.log, ∃ d ∈ r.dispatches, d.scheduled_for_ms = 60000 := by
  have hok : (setEveryMinute 600000).1.isOk = true := by
    decide
  have hscan := exec_serveOk .minutely 600000 (scan_due .minutely 600000)
    { (setEveryMinute 600000).2 with history := .empty }
  have hdispatch : ((run (World.serveOk .minutely 600000) (scan_due .minutely 600000)
      { (setEveryMinute 600000).2 with history := .empty }).2.history.dispatches "ticker").any
        (fun d => d.scheduled_for_ms = 60000) = true := by
    decide
  cases hreply : (setEveryMinute 600000).1 with
  | error e =>
    rw [hreply] at hok
    cases hok
  | ok reply =>
    obtain ⟨d, hd, hinstant⟩ := List.any_eq_true.mp hdispatch
    refine ⟨reply, rfl, [600000], _, .step .start ⟨.scan hscan, Int64.le_refl 600000⟩, ?_⟩
    exact ⟨_, List.mem_cons_self, d, hd, of_decide_eq_true hinstant⟩

end Scheduler
