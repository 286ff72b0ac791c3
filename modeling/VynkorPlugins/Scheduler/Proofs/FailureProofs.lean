import VynkorPlugins.Scheduler.Calls

/-!
# A failing dispatch and its scan

The error of a failed action is cut at 256 bytes. Where the cut falls into a character the scan
panics, and the fires that are left are not attempted.
-/

namespace Scheduler

open Async

variable {c : Crates} {o : Ends} {now_ms : Int64} {s s' : Scanning} {fire : DueFire}

/-- Only the document of one schedule has changed. -/
structure Scanning.Apart (id : String) (s s' : Scanning) : Prop where
  others : ∀ id', id' ≠ id → s'.world.docs[id']? = s.world.docs[id']?
  found : s.world.docs[id]?.isSome = true → s'.world.docs[id]?.isSome = true

theorem Scanning.Apart.of_docs {id : String} (h : s'.world.docs = s.world.docs) : s.Apart id s' := by
  constructor
  · intro id' _
    rw [h]
  · intro hfound
    rw [h]
    exact hfound

theorem Scanning.Apart.trans {id : String} {s₁ : Scanning} (h : s.Apart id s₁) (h' : s₁.Apart id s') :
    s.Apart id s' where
  others id' hne := (h'.others id' hne).trans (h.others id' hne)
  found hfound := h'.found (h.found hfound)

/-- A document is written, or is not. -/
theorem docs_serve_db_set (writer : Writer) (doc : ScheduleDoc) :
    (o.serve c (.db_set writer doc) s).2.world.docs =
      if (o.fate (.db_set writer doc)).done = true then s.world.docs.insert doc.id doc
      else s.world.docs := by
  show ((o.fate (.db_set writer doc)).write (s.world.turn _ _) _).docs = _
  rw [Fate.write_eq]
  split_ifs with hdone
  · rfl
  · rfl

theorem apart_serve_db_set (writer : Writer) (doc : ScheduleDoc) :
    s.Apart doc.id (o.serve c (.db_set writer doc) s).2 := by
  constructor
  · intro id' hne
    rw [docs_serve_db_set]
    split_ifs
    · rw [Table.getElem?_insert_ite, if_neg (Ne.symm hne)]
    · rfl
  · intro hfound
    rw [docs_serve_db_set]
    split_ifs
    · rw [Table.getElem?_insert_ite, if_pos rfl]
      rfl
    · exact hfound

/-- What recording an error comes to, for a schedule that is stored. -/
structure Recorded (o : Ends) (id e : String) (s : Scanning)
    (r : Option (Except String Unit) × Scanning) : Prop where
  ends : r.1 ≠ none ↔ ((o.read id).acknowledged = true → Rust.CutsAt e MAX_ERROR_BYTES)
  attempts : r.2.attempts = s.attempts
  apart : s.Apart id r.2
  tells : r.1 ≠ none → (o.read id).acknowledged = true → (o.record id).done = true →
    ∃ doc, r.2.world.docs[id]? = some doc ∧ Tells e doc

/-- The document with an error that was cut. -/
def ScheduleDoc.failed (doc : ScheduleDoc) (msg : String) (now_ms : Int64) : ScheduleDoc :=
  { doc with last_error := some msg, updated_at_ms := now_ms }

theorem tells_failed {e msg : String} (doc : ScheduleDoc) (now_ms : Int64)
    (h : Rust.truncate e MAX_ERROR_BYTES = some msg) : Tells e (doc.failed msg now_ms) := by
  obtain ⟨⟨rest, hrest⟩, hlen⟩ := Rust.of_truncate h
  refine ⟨msg, String.ofList rest, rfl, ?_, hlen⟩
  rw [← String.toList_inj, String.toList_append, String.toList_ofList, hrest]

/-- What becomes of an error, after the schedule was read. -/
theorem run_record_last_error {id e : String} :
    run (o.serve c) (record_last_error id e) s =
      run (o.serve c) (match (o.read id).answer s.world.docs[id]? with
        | .error e => return some (.error e)
        | .ok none => return some (.error ("schedule vanished: " ++ id))
        | .ok (some doc) =>
          match Rust.truncate e MAX_ERROR_BYTES with
          | none => return none
          | some msg => do
            let now ← Scheduler.now_ms
            let stored ← Db.put .record_last_error (doc.failed msg now)
            return some stored) (o.serve c (.db_get id) s).2 := by
  rfl

theorem ends_record_last_error {id e : String} (hfound : s.world.docs[id]?.isSome = true) :
    Recorded o id e s (run (o.serve c) (record_last_error id e) s) := by
  obtain ⟨doc, hdoc⟩ := Option.isSome_iff_exists.mp hfound
  have hkey : doc.id = id := s.world.keyed id doc hdoc
  by_cases hack : (o.read id).acknowledged = true
  swap
  · obtain ⟨e', he'⟩ := Fate.answer_of_not_acknowledged s.world.docs[id]? hack
    rw [run_record_last_error, he']
    refine ⟨?_, rfl, .of_docs rfl, fun _ h => absurd h hack⟩
    constructor
    · exact fun _ h => absurd h hack
    · rintro - ⟨⟩
  have hanswer : (o.read id).answer s.world.docs[id]? = .ok (some doc) := by
    rw [Fate.acknowledged_iff.mp hack, hdoc]
    rfl
  rw [run_record_last_error, hanswer]
  dsimp only
  cases hcut : Rust.truncate e MAX_ERROR_BYTES with
  | none =>
    refine ⟨?_, rfl, .of_docs rfl, fun h => absurd rfl h⟩
    constructor
    · exact fun h => absurd rfl h
    · intro h
      have hsome := Rust.truncate_isSome_iff.mpr (h hack)
      rw [hcut] at hsome
      cases hsome
  | some msg =>
    -- the document is written as it was read, with the error
    let read := (o.serve c (.db_get id) s).2
    let clock := o.clock s.attempts.length
    let told := (o.serve c .now read).2
    have hput : run (o.serve c) (do
        let now ← now_ms
        let stored ← Db.put .record_last_error (doc.failed msg now)
        return some stored) read =
        (some ((o.record doc.id).answer ()),
          (o.serve c (.db_set .record_last_error (doc.failed msg clock)) told).2) := rfl
    rw [hput]
    have hapart : s.Apart id (o.serve c (.db_set .record_last_error (doc.failed msg clock)) told).2 := by
      have hwritten := apart_serve_db_set (o := o) (c := c) (s := told) .record_last_error
        (doc.failed msg clock)
      have hid : (doc.failed msg clock).id = id := hkey
      rw [hid] at hwritten
      have htold : s.Apart id told := .of_docs rfl
      exact htold.trans hwritten
    refine ⟨?_, rfl, hapart, ?_⟩
    · constructor
      · intro _ _
        rw [← Rust.truncate_isSome_iff, hcut]
        rfl
      · rintro - ⟨⟩
    · intro _ _ hdone
      refine ⟨doc.failed msg clock, ?_, tells_failed doc clock hcut⟩
      have hdone' : (o.fate (.db_set .record_last_error (doc.failed msg clock))).done = true := by
        show (o.record doc.id).done = true
        rw [hkey]
        exact hdone
      rw [docs_serve_db_set, if_pos hdone', Table.getElem?_insert_ite]
      exact if_pos hkey

/-! ## One fire -/

/-- What a due fire comes to, whose schedule is stored. -/
structure Attempted (o : Ends) (now_ms : Int64) (fire : DueFire) (s : Scanning)
    (r : Option Unit × Scanning) : Prop where
  ends : r.1 ≠ none ↔ o.Cuttable [fire]
  attempts : r.2.attempts = s.attempts ++ [fire.marked now_ms]
  apart : s.Apart fire.doc.id r.2
  tells : r.1 ≠ none → ∀ e, o.Fails fire e → (o.read fire.doc.id).acknowledged = true →
    (o.record fire.doc.id).done = true → ∃ doc, r.2.world.docs[fire.doc.id]? = some doc ∧ Tells e doc

/-- A dispatch that does not fail ends its turn. -/
theorem Attempted.of_not_fails {r : Scanning} (hnone : ∀ e, ¬ o.Fails fire e)
    (hattempts : r.attempts = s.attempts ++ [fire.marked now_ms]) (hapart : s.Apart fire.doc.id r) :
    Attempted o now_ms fire s (some (), r) := by
  refine ⟨?_, hattempts, hapart, fun _ e he => absurd he (hnone e)⟩
  constructor
  · intro _ fire' hfire' e he
    obtain rfl := List.mem_singleton.mp hfire'
    exact absurd he (hnone e)
  · rintro - ⟨⟩

/-- A scan goes on after an error was recorded, and panics where that did. -/
theorem run_recorded (recorded : Option (Except String Unit) × Scanning) :
    run (o.serve c) (match recorded.1 with
      | none => (return none : Act (Option Unit))
      | some _ => return some ()) recorded.2 = (recorded.1.map fun _ => (), recorded.2) := by
  rcases recorded with ⟨_ | _, _⟩
  · rfl
  · rfl

theorem ends_fire_due (hfound : s.world.docs[fire.doc.id]?.isSome = true) :
    Attempted o now_ms fire s (run (o.serve c) (fire_due now_ms fire) s) := by
  let mark := (o.serve c (.db_set .mark_fired (fire.marked_doc now_ms)) s).2
  have hmark : s.Apart fire.doc.id mark :=
    apart_serve_db_set .mark_fired (fire.marked_doc now_ms)
  have hrun : run (o.serve c) (fire_due now_ms fire) s =
      run (o.serve c) (deliver (fire.marked now_ms)) mark := rfl
  rw [hrun]
  unfold deliver
  cases hfire : (fire.marked now_ms).doc.fire with
  | Event payload =>
    have hevent : fire.doc.fire = .Event payload := hfire
    refine .of_not_fails (fun e he => ?_) rfl (hmark.trans (.of_docs rfl))
    have haction := he.1
    rw [hevent] at haction
    cases haction
  | Action name params =>
    have haction : fire.doc.fire.isAction = true := by
      have hdoc : fire.doc.fire = .Action name params := hfire
      rw [hdoc]
      rfl
    let called := (o.serve c (.call_action (fire.marked now_ms) name params) mark).2
    have hcalled : s.Apart fire.doc.id called := hmark.trans (.of_docs rfl)
    have hanswer : (run (o.serve c) (await (.call_action (fire.marked now_ms) name params)) mark).1 =
        o.dispatch fire.doc.id := by
      show (o.dispatched fire.doc.id).answer () = _
      unfold Ends.dispatched
      rcases o.dispatch fire.doc.id with e | _
      · rfl
      · rfl
    dsimp only
    rw [run_bind, hanswer]
    cases hend : o.dispatch fire.doc.id with
    | ok =>
      refine .of_not_fails (fun e he => ?_) rfl hcalled
      have herror := he.2
      rw [hend] at herror
      cases herror
    | error e =>
      have hfails : o.Fails fire e := ⟨haction, hend⟩
      have honly : ∀ e', o.Fails fire e' → e' = e := by
        intro e' he'
        have herror := he'.2
        rw [hend] at herror
        exact (Except.error.inj herror).symm
      have hrecord := ends_record_last_error (c := c) (o := o) (e := e) (hcalled.found hfound)
      change Recorded o fire.doc.id e called
        (run (o.serve c) (record_last_error (fire.marked now_ms).doc.id e) called) at hrecord
      have hcall : (run (o.serve c) (await (.call_action (fire.marked now_ms) name params)) mark).2 =
          called := rfl
      dsimp only
      rw [hcall, run_bind]
      refine (congrArg (Attempted o now_ms fire s) (run_recorded _)).mpr ?_
      generalize run (o.serve c) (record_last_error (fire.marked now_ms).doc.id e) called = recorded
        at hrecord
      have hnone : (recorded.1.map fun _ => ()) ≠ none ↔ recorded.1 ≠ none := by
        rw [Ne, Option.map_eq_none_iff]
      refine ⟨?_, hrecord.attempts, hcalled.trans hrecord.apart, ?_⟩
      · rw [hnone, hrecord.ends]
        constructor
        · intro hcut fire' hfire' e' he' hack
          obtain rfl := List.mem_singleton.mp hfire'
          rw [honly e' he']
          exact hcut hack
        · exact fun hcut => hcut fire List.mem_cons_self e hfails
      · intro hends e' he' hack hdone
        rw [honly e' he']
        exact hrecord.tells (hnone.mp hends) hack hdone

/-! ## All fires -/

/-- What is left of a scan comes to, for fires of different schedules that are stored. -/
structure AllAttempted {α : Type} (o : Ends) (now_ms : Int64) (fires : List DueFire) (s : Scanning)
    (r : Option α × Scanning) : Prop where
  ends : r.1 ≠ none ↔ o.Cuttable fires
  attempts : r.1 ≠ none → r.2.attempts = s.attempts ++ fires.map fun fire => fire.marked now_ms
  others : ∀ id, (∀ fire ∈ fires, fire.doc.id ≠ id) → r.2.world.docs[id]? = s.world.docs[id]?
  tells : r.1 ≠ none → ∀ fire ∈ fires, ∀ e, o.Fails fire e →
    (o.read fire.doc.id).acknowledged = true → (o.record fire.doc.id).done = true →
      ∃ doc, r.2.world.docs[fire.doc.id]? = some doc ∧ Tells e doc

theorem AllAttempted.nil {α : Type} {r : Option α × Scanning} (hends : r.1 ≠ none)
    (hattempts : r.2.attempts = s.attempts) (hdocs : r.2.world.docs = s.world.docs) :
    AllAttempted o now_ms [] s r := by
  have hclean : o.Cuttable [] := fun _ h => nomatch h
  refine ⟨⟨fun _ => hclean, fun _ => hends⟩, fun _ => ?_, fun id _ => ?_, ?_⟩
  · exact hattempts.trans (List.append_nil _).symm
  · rw [hdocs]
  · exact fun _ _ h => nomatch h

theorem Ends.cuttable_cons {fires : List DueFire} :
    o.Cuttable (fire :: fires) ↔ o.Cuttable [fire] ∧ o.Cuttable fires := by
  unfold Ends.Cuttable
  simp only [List.mem_cons, List.not_mem_nil, or_false, forall_eq_or_imp, forall_eq]

theorem ends_fire_all {fires : List DueFire} (hnodup : (fires.map fun fire => fire.doc.id).Nodup)
    (hfound : ∀ fire ∈ fires, s.world.docs[fire.doc.id]?.isSome = true) :
    AllAttempted o now_ms fires s (run (o.serve c) (fire_all now_ms fires) s) := by
  induction fires generalizing s with
  | nil => exact .nil (by rintro ⟨⟩) rfl rfl
  | cons fire fires ih =>
    rw [List.map_cons, List.nodup_cons] at hnodup
    have hapart : ∀ fire' ∈ fires, fire'.doc.id ≠ fire.doc.id :=
      fun fire' hfire' hid => hnodup.1 (List.mem_map.mpr ⟨fire', hfire', hid⟩)
    have hone : Attempted o now_ms fire s (run (o.serve c) (fire_due now_ms fire) s) :=
      ends_fire_due (hfound fire List.mem_cons_self)
    unfold fire_all
    rw [run_bind]
    generalize run (o.serve c) (fire_due now_ms fire) s = r₁ at hone
    obtain ⟨fired, s₁⟩ := r₁
    have hlater := ih (s := s₁) hnodup.2 fun fire' hfire' => by
      rw [hone.apart.others fire'.doc.id (hapart fire' hfire')]
      exact hfound fire' (List.mem_cons_of_mem _ hfire')
    cases fired with
    | none =>
      -- the scan panics here
      refine ⟨?_, fun h => absurd rfl h, fun id hid => ?_, fun h => absurd rfl h⟩
      · rw [Ends.cuttable_cons, ← hone.ends]
        constructor
        · exact fun h => absurd rfl h
        · exact fun h => absurd rfl h.1
      · exact hone.apart.others id (hid fire List.mem_cons_self).symm
    | some =>
      dsimp only
      refine ⟨?_, fun hends => ?_, fun id hid => ?_, fun hends fire' hfire' e he hack hdone => ?_⟩
      · rw [Ends.cuttable_cons, ← hone.ends, hlater.ends]
        constructor
        · exact fun h => ⟨by rintro ⟨⟩, h⟩
        · exact fun h => h.2
      · rw [hlater.attempts hends, hone.attempts, List.map_cons, List.append_assoc]
        rfl
      · rw [hlater.others id fun fire' hfire' => hid fire' (List.mem_cons_of_mem _ hfire')]
        exact hone.apart.others id (hid fire List.mem_cons_self).symm
      · rcases List.mem_cons.mp hfire' with rfl | hfire'
        · rw [hlater.others fire'.doc.id hapart]
          exact hone.tells (by rintro ⟨⟩) e he hack hdone
        · exact hlater.tells hends fire' hfire' e he hack hdone

/-! ## A scan -/

/-- What the listing of the documents is answered. -/
def Ends.listing (o : Ends) (w : World) : Except String (List ScheduleDoc) :=
  match o.keys.answer w.docs.keys with
  | .error e => .error e
  | .ok keys => if keys = [] then .ok [] else o.rows.answer (w.rows keys)

theorem due_eq (w : World) : o.due c now_ms w =
    match o.listing w with
    | .error _ => []
    | .ok docs => c.due_schedules docs now_ms := by
  unfold Ends.due Ends.listing
  cases hkeys : o.keys with
  | refused e => rfl
  | applied e => rfl
  | ok =>
    by_cases hnil : w.docs.keys = []
    · have hrows : w.rows [] = [] := by
        simp [World.rows, Table.selectWhere]
      have hnone : c.due_schedules (w.rows w.docs.keys) now_ms = [] := by
        rw [hnil, hrows]
        rfl
      simp only [Fate.answer, if_pos hnil, hnone, ite_self]
      rfl
    · simp only [Fate.answer, if_neg hnil]
      cases hrows : o.rows with
      | ok => rfl
      | refused e => rfl
      | applied e => rfl

/-- The listing changes nothing. -/
theorem ends_list (w : World) : ∃ w', w'.docs = w.docs ∧
    run (o.serve c) Db.list { world := w, attempts := [] } =
      (o.listing w, { world := w', attempts := [] }) := by
  have hkeys : run (o.serve c) Db.list { world := w, attempts := [] } =
      run (o.serve c) (match o.keys.answer w.docs.keys with
        | .error e => return .error e
        | .ok keys => if keys = [] then return .ok [] else await (.db_batch_get keys))
        (o.serve c .db_keys { world := w, attempts := [] }).2 := rfl
  rw [hkeys]
  unfold Ends.listing
  let s := (o.serve c .db_keys { world := w, attempts := [] }).2
  cases o.keys.answer w.docs.keys with
  | error e => exact ⟨s.world, rfl, rfl⟩
  | ok keys =>
    dsimp only
    split_ifs with hnil
    · exact ⟨s.world, rfl, rfl⟩
    · refine ⟨(o.serve c (.db_batch_get keys) s).2.world, ?_, rfl⟩
      show (if _ then _ else _ : World).docs = w.docs
      split_ifs
      · rfl
      · rfl

theorem mem_listing {w : World} {docs : List ScheduleDoc} (h : o.listing w = .ok docs) :
    (docs.map ScheduleDoc.id).Nodup ∧ ∀ doc ∈ docs, w.docs[doc.id]? = some doc := by
  unfold Ends.listing at h
  cases hkeys : o.keys.answer w.docs.keys with
  | error e =>
    rw [hkeys] at h
    cases h
  | ok keys =>
    rw [hkeys] at h
    dsimp only at h
    split_ifs at h with hnil
    · obtain rfl := Except.ok.inj h
      exact ⟨List.nodup_nil, fun _ h => nomatch h⟩
    · obtain ⟨-, rfl⟩ := Fate.answer_eq_ok_iff.mp h
      exact ⟨w.nodup_rows keys, fun _ => World.mem_rows⟩

theorem ends_scan_due (w : World) :
    AllAttempted o now_ms (o.due c now_ms w) { world := w, attempts := [] } (o.scan c now_ms w) := by
  obtain ⟨w', hdocs, hlist⟩ := ends_list (c := c) (o := o) w
  unfold Ends.scan scan_due
  rw [run_bind, hlist, due_eq]
  cases hlisting : o.listing w with
  | error e => exact .nil (by rintro ⟨⟩) rfl hdocs
  | ok docs =>
    dsimp only
    obtain ⟨hnodup, hstored⟩ := mem_listing hlisting
    have hfound : ∀ fire ∈ c.due_schedules docs now_ms, w'.docs[fire.doc.id]?.isSome = true := by
      intro fire hfire
      rw [hdocs, hstored fire.doc (mem_due_schedules.mp hfire).1]
      rfl
    have hall : AllAttempted o now_ms (c.due_schedules docs now_ms) { world := w', attempts := [] }
        (run (o.serve c) (fire_all now_ms (c.due_schedules docs now_ms))
          { world := w', attempts := [] }) :=
      ends_fire_all (nodup_due_schedules hnodup) hfound
    rw [run_bind]
    generalize run (o.serve c) (fire_all now_ms (c.due_schedules docs now_ms)) _ = r at hall
    have hothers : ∀ id, (∀ fire ∈ c.due_schedules docs now_ms, fire.doc.id ≠ id) →
        r.2.world.docs[id]? = w.docs[id]? := by
      intro id hid
      rw [hall.others id hid]
      exact congrArg (·[id]?) hdocs
    obtain ⟨_ | _, s⟩ := r
    · exact ⟨⟨fun h => absurd rfl h, fun h => absurd rfl (hall.ends.mpr h)⟩, fun h => absurd rfl h,
        hothers, fun h => absurd rfl h⟩
    · have hends : (some () : Option Unit) ≠ none := by rintro ⟨⟩
      exact ⟨⟨fun _ => hall.ends.mp hends, fun _ => by rintro ⟨⟩⟩, fun _ => hall.attempts hends,
        hothers, fun _ => hall.tells hends⟩

/-- A scan panics at the first fire where the error of this one cannot be cut. -/
theorem ends_scan_due_first {w : World} {fires : List DueFire} (hdue : o.due c now_ms w = fire :: fires)
    (hcut : ¬ o.Cuttable [fire]) :
    (o.scan c now_ms w).1 = none ∧ (o.scan c now_ms w).2.attempts = [fire.marked now_ms] := by
  obtain ⟨w', hdocs, hlist⟩ := ends_list (c := c) (o := o) w
  rw [due_eq] at hdue
  cases hlisting : o.listing w with
  | error e =>
    rw [hlisting] at hdue
    cases hdue
  | ok docs =>
    rw [hlisting] at hdue
    dsimp only at hdue
    obtain ⟨-, hstored⟩ := mem_listing hlisting
    have hmem : fire ∈ c.due_schedules docs now_ms := by
      rw [hdue]
      exact List.mem_cons_self
    have hfound : w'.docs[fire.doc.id]?.isSome = true := by
      rw [hdocs, hstored fire.doc (mem_due_schedules.mp hmem).1]
      rfl
    have hone : Attempted o now_ms fire { world := w', attempts := [] }
        (run (o.serve c) (fire_due now_ms fire) { world := w', attempts := [] }) :=
      ends_fire_due hfound
    have hpanic : (run (o.serve c) (fire_due now_ms fire) { world := w', attempts := [] }).1 = none := by
      by_contra h
      exact hcut (hone.ends.mp h)
    have hscan : o.scan c now_ms w =
        (none, (run (o.serve c) (fire_due now_ms fire) { world := w', attempts := [] }).2) := by
      unfold Ends.scan scan_due
      rw [run_bind, hlist, hlisting]
      dsimp only
      rw [hdue, run_bind]
      unfold fire_all
      rw [run_bind, hpanic]
      rfl
    rw [hscan]
    exact ⟨rfl, hone.attempts⟩

/-- A scan runs to its end, attempts every due fire once and records the errors of the failed actions
    if and only if each of these errors can be cut at 256 bytes. -/
theorem scan_completes_iff (c : Crates) (o : Ends) (now_ms : Int64) (w : World) :
    Completed c o now_ms w (o.scan c now_ms w) ↔ o.Cuttable (o.due c now_ms w) := by
  have hall : AllAttempted o now_ms (o.due c now_ms w) { world := w, attempts := [] }
      (o.scan c now_ms w) := ends_scan_due w
  constructor
  · exact fun h => hall.ends.mp h.ends
  · intro hclean
    have hends := hall.ends.mpr hclean
    exact ⟨hends, (hall.attempts hends).trans (List.nil_append _), hall.tells hends⟩

/-! ## An error in two bytes a character -/

/-- A one-shot that calls an action. -/
def callDoc (id : String) : ScheduleDoc where
  id
  name := none
  enabled := true
  trigger := .Once 0
  fire := .Action "notes_list" .null
  fired_once := false
  fire_count := 0
  last_fired_ms := none
  last_error := none
  created_at_ms := 0
  updated_at_ms := 0

def callWorld : World where
  docs := ((∅ : Table String ScheduleDoc).insert "1" (callDoc "1")).insert "2" (callDoc "2")
  keyed id doc h := by
    rw [Table.getElem?_insert_ite] at h
    split_ifs at h with hid
    · obtain rfl := Option.some.inj h
      exact hid
    · rw [Table.getElem?_insert_ite] at h
      split_ifs at h with hid'
      · obtain rfl := Option.some.inj h
        exact hid'
      · simp at h
  next_id := 2
  clock := 0
  fate := .ok
  history := .empty

/-- The actions fail with a text whose 256th byte is the first one of an `é`. -/
def accents : Ends where
  keys := .ok
  rows := .ok
  mark _ := .ok
  dispatch _ := .error (String.ofList (List.replicate 255 'a' ++ ['é']))
  read _ := .ok
  record _ := .ok
  clock _ := 0

/-- The 256th byte of the text is inside of a character. -/
theorem not_cutsAt_accents :
    ¬ Rust.CutsAt (String.ofList (List.replicate 255 'a' ++ ['é'])) MAX_ERROR_BYTES := by
  have hsize : String.utf8Len (List.replicate 255 'a' ++ ['é']) = 257 := by
    decide +kernel
  have hkept : String.utf8Len (Rust.takeBytes 256 (List.replicate 255 'a' ++ ['é'])) = 255 := by
    decide +kernel
  rw [← Rust.truncate_isSome_iff]
  unfold Rust.truncate MAX_ERROR_BYTES
  simp only [String.utf8ByteSize_ofList, String.toList_ofList, hsize, hkept]
  simp

/-- Both schedules are due, and the scan panics at the first one. -/
theorem long_error_aborts_scan :
    (accents.due .minutely 0 callWorld).length = 2 ∧
      (accents.scan .minutely 0 callWorld).2.attempts.length = 1 ∧
      ¬ Completed .minutely accents 0 callWorld (accents.scan .minutely 0 callWorld) := by
  have htwo : (accents.due .minutely 0 callWorld).length = 2 := by
    decide
  have hactions : ∀ fire ∈ accents.due .minutely 0 callWorld, fire.doc.fire.isAction = true := by
    decide
  obtain ⟨fire, fires, hdue⟩ := List.exists_cons_of_length_eq_add_one htwo
  have hfails : accents.Fails fire (String.ofList (List.replicate 255 'a' ++ ['é'])) :=
    ⟨hactions fire (by rw [hdue]; exact List.mem_cons_self), rfl⟩
  have hcut : ¬ accents.Cuttable [fire] := fun h =>
    not_cutsAt_accents (h fire List.mem_cons_self _ hfails rfl)
  obtain ⟨hpanic, hattempts⟩ := ends_scan_due_first hdue hcut
  refine ⟨htwo, ?_, fun hcompleted => hcompleted.ends hpanic⟩
  rw [hattempts]
  rfl

end Scheduler
