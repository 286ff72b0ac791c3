import Mathlib
import VynkorPlugins.Scheduler.Calls

/-!
# Generated ids

The ids of the stored documents are decimals up to the counter, and ids that requests have named. A
generated id is new unless a request has named it before.
-/

namespace Scheduler

open Async Transition

variable {c : Crates} {w w' w₁ : World} {now_ms : Int64} {new : NewSchedule} {id : String}

/-! ## What a request does -/

/-- What the end of a `schedule_set` makes of the database. -/
structure Written (doc : ScheduleDoc) (created : Bool) (w w' : World) (result : Except String Reply)
    (done : Bool) : Prop where
  docs : ∀ id, w'.docs[id]? = if done = true ∧ doc.id = id then some doc else w.docs[id]?
  next_id : w'.next_id = w.next_id
  reply : ∀ reply, result = .ok reply → reply = .stored created doc ∧ done = true

theorem exec_store {created : Bool} {doc : ScheduleDoc} {result : Except String Reply}
    (h : Exec (Alone c) w (store created doc) result w') :
    ∃ done, Written doc created w w' result done := by
  unfold store at h
  obtain ⟨stored, w₁, ⟨clock, fate, hput⟩, h⟩ := exec_call_iff.mp h
  obtain ⟨hanswer, rfl⟩ := Prod.mk.inj hput
  change fate.answer () = stored at hanswer
  refine ⟨fate.done, ?_⟩
  have hwritten (result : Except String Reply)
      (hreply : ∀ reply, result = .ok reply → reply = .stored created doc ∧ fate.done = true) :
      Written doc created w (World.serve c .tick 0 (.db_set .schedule_set doc) (w.turn clock fate)).2
        result fate.done := by
    refine ⟨fun id => ?_, ?_, hreply⟩
    · show (fate.write (w.turn clock fate) ((w.turn clock fate).put doc)).docs[id]? = _
      rw [Fate.write_eq]
      cases fate.done with
      | false => simp [World.turn]
      | true =>
        show (w.docs.insert doc.id doc)[id]? = _
        rw [Table.getElem?_insert_ite]
        simp
    · show (fate.write (w.turn clock fate) ((w.turn clock fate).put doc)).next_id = _
      rw [Fate.write_eq]
      split_ifs
      · rfl
      · rfl
  rcases stored with e | _
  · obtain ⟨rfl, rfl⟩ := exec_done_iff.mp h
    refine hwritten _ ?_
    rintro reply ⟨⟩
  · obtain ⟨rfl, rfl⟩ := exec_done_iff.mp h
    obtain ⟨rfl, -⟩ := Fate.answer_eq_ok_iff.mp hanswer
    exact hwritten _ fun reply hreply => ⟨(Except.ok.inj hreply).symm, rfl⟩

/-- What a `schedule_set` comes to. -/
inductive SetOutcome (new : NewSchedule) (now_ms : Int64) (w w' : World)
    (result : Except String Reply) : Prop
  | failed (hdocs : w'.docs = w.docs) (hnext : w.next_id ≤ w'.next_id)
      (herror : ∀ reply, result ≠ .ok reply)
  | given {id : String} {done : Bool} (hid : new.id = some id)
      (h : Written
        (build_doc id new ((w.docs[id]?.map ScheduleDoc.created_at_ms).getD now_ms) now_ms)
        w.docs[id]?.isNone w w' result done)
  | generated {done : Bool} (hid : new.id = none)
      (h : Written (build_doc (toString (w.next_id + 1)) new now_ms now_ms) true
        { w with next_id := w.next_id + 1 } w' result done)

theorem exec_schedule_set {result : Except String Reply}
    (h : Exec (Alone c) w (schedule_set new now_ms) result w') :
    SetOutcome new now_ms w w' result := by
  unfold schedule_set at h
  cases hid : new.id with
  | some id =>
    rw [hid] at h
    obtain ⟨found, w₁, ⟨clock, fate, hget⟩, h⟩ := exec_call_iff.mp h
    obtain ⟨hfound, rfl⟩ := Prod.mk.inj hget
    change fate.answer w.docs[id]? = found at hfound
    rcases found with e | existing
    · obtain ⟨rfl, rfl⟩ := exec_done_iff.mp h
      exact .failed rfl (Nat.le_refl _) fun reply h => nomatch h
    · obtain ⟨-, rfl⟩ := Fate.answer_eq_ok_iff.mp hfound
      obtain ⟨done, hwritten⟩ := exec_store h
      exact .given hid ⟨hwritten.docs, hwritten.next_id, hwritten.reply⟩
  | none =>
    rw [hid] at h
    obtain ⟨n, w₁, ⟨clock, fate, hincr⟩, h⟩ := exec_call_iff.mp h
    obtain ⟨hn, rfl⟩ := Prod.mk.inj hincr
    change fate.answer (w.next_id + 1) = n at hn
    rcases n with e | n
    · obtain ⟨rfl, rfl⟩ := exec_done_iff.mp h
      refine .failed ?_ ?_ fun reply h => nomatch h
      · show (fate.write (w.turn clock fate) _).docs = _
        rw [Fate.write_eq]
        split_ifs
        · rfl
        · rfl
      · show w.next_id ≤ (fate.write (w.turn clock fate) _).next_id
        rw [Fate.write_eq]
        split_ifs
        · exact Nat.le_succ _
        · exact Nat.le_refl _
    · obtain ⟨rfl, rfl⟩ := Fate.answer_eq_ok_iff.mp hn
      obtain ⟨done, hwritten⟩ := exec_store h
      exact .generated hid ⟨hwritten.docs, hwritten.next_id, hwritten.reply⟩

/-- Listing the documents changes none. -/
theorem exec_list {result : Except String (List ScheduleDoc)} (h : Exec (Alone c) w Db.list result w') :
    w'.docs = w.docs ∧ w'.next_id = w.next_id := by
  unfold Db.list at h
  obtain ⟨keys, w₁, ⟨clock, fate, hkeys⟩, h⟩ := exec_call_iff.mp h
  obtain ⟨-, rfl⟩ := Prod.mk.inj hkeys
  rcases keys with e | keys
  · obtain ⟨-, rfl⟩ := exec_done_iff.mp h
    exact ⟨rfl, rfl⟩
  change Exec _ _ (if keys = [] then _ else _) _ _ at h
  split_ifs at h
  · obtain ⟨-, rfl⟩ := exec_done_iff.mp h
    exact ⟨rfl, rfl⟩
  · obtain ⟨docs, w₂, ⟨clock', fate', hget⟩, h⟩ := exec_call_iff.mp h
    obtain ⟨-, rfl⟩ := Prod.mk.inj hget
    obtain ⟨-, rfl⟩ := exec_done_iff.mp h
    show (if _ then _ else _ : World).docs = _ ∧ (if _ then _ else _ : World).next_id = _
    split_ifs
    · exact ⟨rfl, rfl⟩
    · exact ⟨rfl, rfl⟩

/-- The ids of the stored documents. -/
def World.Stores (w : World) (id : String) : Prop := (w.docs[id]?).isSome = true

theorem Written.stores {doc : ScheduleDoc} {created done : Bool} {result : Except String Reply}
    (h : Written doc created w w' result done) (hid : w'.Stores id) : w.Stores id ∨ id = doc.id := by
  unfold World.Stores at hid ⊢
  rw [h.docs] at hid
  split_ifs at hid with hwritten
  · exact .inr hwritten.2.symm
  · exact .inl hid

/-- A document that is stored after a request was stored before, or has the id that the request names
    or a decimal up to the counter. -/
theorem stores_of_set {result : Except String Reply}
    (h : Exec (Alone c) w (schedule_set new now_ms) result w') :
    w.next_id ≤ w'.next_id ∧
      ∀ id, w'.Stores id → w.Stores id ∨ new.id = some id ∨ ∃ n ≤ w'.next_id, id = toString n := by
  cases exec_schedule_set h with
  | failed hdocs hnext =>
    refine ⟨hnext, fun id hid => .inl ?_⟩
    unfold World.Stores at hid ⊢
    rw [← hdocs]
    exact hid
  | given hnew hwritten =>
    refine ⟨Nat.le_of_eq hwritten.next_id.symm, fun id hid => ?_⟩
    rcases hwritten.stores hid with hid | rfl
    · exact .inl hid
    · exact .inr (.inl hnew)
  | generated hnew hwritten =>
    have hnext : w'.next_id = w.next_id + 1 := hwritten.next_id
    refine ⟨by omega, fun id hid => ?_⟩
    rcases hwritten.stores hid with hid | rfl
    · exact .inl hid
    · exact .inr (.inr ⟨w.next_id + 1, Nat.le_of_eq hnext.symm, rfl⟩)

theorem stores_of_apply {req : SchedulerRequest} {result : Except String Reply}
    (h : Exec (Alone c) w (apply c req now_ms) result w') :
    w.next_id ≤ w'.next_id ∧
      ∀ id, w'.Stores id →
        w.Stores id ∨ req.set_id = some id ∨ ∃ n ≤ w'.next_id, id = toString n := by
  cases req with
  | Set new => exact stores_of_set h
  | Get id =>
    obtain ⟨found, w₁, ⟨clock, fate, hget⟩, h⟩ := exec_call_iff.mp h
    obtain ⟨-, rfl⟩ := Prod.mk.inj hget
    obtain rfl : w' = w.turn clock fate := by
      rcases found with e | doc
      · exact (exec_done_iff.mp h).2
      · exact (exec_done_iff.mp h).2
    exact ⟨Nat.le_refl _, fun id hid => .inl hid⟩
  | List limit offset =>
    obtain ⟨docs, w₁, hlist, h⟩ := exec_bind_iff.mp h
    obtain ⟨hdocs, hnext⟩ := exec_list hlist
    obtain rfl : w' = w₁ := by
      rcases docs with e | docs
      · exact (exec_done_iff.mp h).2
      · exact (exec_done_iff.mp h).2
    refine ⟨Nat.le_of_eq hnext.symm, fun id hid => .inl ?_⟩
    unfold World.Stores at hid ⊢
    rw [← hdocs]
    exact hid
  | Delete id' =>
    obtain ⟨deleted, w₁, ⟨clock, fate, hdelete⟩, h⟩ := exec_call_iff.mp h
    obtain ⟨-, rfl⟩ := Prod.mk.inj hdelete
    obtain rfl : w' = fate.write (w.turn clock fate) ((w.turn clock fate).delete id') := by
      rcases deleted with e | deleted
      · exact (exec_done_iff.mp h).2
      · exact (exec_done_iff.mp h).2
    rw [Fate.write_eq]
    split_ifs
    · refine ⟨Nat.le_refl _, fun id hid => .inl ?_⟩
      change ((w.docs.erase id')[id]?).isSome = true at hid
      rw [Table.getElem?_erase_ite] at hid
      split_ifs at hid
      · cases hid
      · exact hid
    · exact ⟨Nat.le_refl _, fun id hid => .inl hid⟩

/-! ## Requests one after the other -/

/-- Where the ids of the stored documents come from. -/
structure IdsInv (s : Calls) : Prop where
  stored : ∀ id, s.world.Stores id → id ∈ s.given ∨ ∃ n ≤ s.world.next_id, id = toString n
  given : ∀ id ∈ s.given, s.world.Stores id

theorem idsInv_step {s s' : Calls} {req : SchedulerRequest} (h : IdsInv s)
    (hstep : CallStep c s req s') : IdsInv s' := by
  cases hstep with
  | @call now_ms result w hid hcall =>
    obtain ⟨hnext, hstores⟩ := stores_of_apply hcall
    constructor
    · intro id hid
      have hcontains : w.docs.contains id = true := by
        rw [Std.ExtTreeMap.contains_eq_isSome_getElem?]
        exact hid
      have hgiven (hmem : id ∈ req.set_id.toList ++ s.given) :
          id ∈ (req.set_id.toList ++ s.given).filter fun id => w.docs.contains id :=
        List.mem_filter.mpr ⟨hmem, hcontains⟩
      rcases hstores id hid with hold | hset | hgenerated
      · rcases h.stored id hold with hmem | ⟨n, hn, rfl⟩
        · exact .inl (hgiven (List.mem_append_right _ hmem))
        · exact .inr ⟨n, hn.trans hnext, rfl⟩
      · refine .inl (hgiven (List.mem_append_left _ ?_))
        rw [hset]
        exact List.mem_singleton_self id
      · exact .inr hgenerated
    · intro id hid
      have hcontains := (List.mem_filter.mp hid).2
      rw [Std.ExtTreeMap.contains_eq_isSome_getElem?] at hcontains
      exact hcontains

/-- A generated id is that of no stored document, unless a request has named it. -/
theorem IdsInv.generated_iff {s : Calls} (h : IdsInv s) :
    s.world.docs[toString (s.world.next_id + 1)]? = none ↔ toString (s.world.next_id + 1) ∉ s.given := by
  constructor
  · intro hnone hmem
    have hstores := h.given _ hmem
    unfold World.Stores at hstores
    rw [hnone] at hstores
    cases hstores
  · intro hfresh
    by_contra hsome
    have hstores : s.world.Stores (toString (s.world.next_id + 1)) :=
      Option.isSome_iff_ne_none.mpr hsome
    rcases h.stored _ hstores with hmem | ⟨n, hn, heq⟩
    · exact hfresh hmem
    · have hsame : s.world.next_id + 1 = n := Nat.repr_injective heq
      omega

/-- A `schedule_set` without an id leaves the stored documents alone and stores its own under a new id,
    unless the next decimal of the counter is the id of a stored document that a request has named. -/
theorem generated_id_is_new_iff {w₀ : World} (hempty : w₀.docs = ∅) {trace : List SchedulerRequest}
    {s : Calls} (hrun : Run (CallStep c) { world := w₀, given := [] } trace s) (hnew : new.id = none)
    {result : Except String Reply} (hset : Exec (Alone c) s.world (schedule_set new now_ms) result w') :
    (toString (s.world.next_id + 1) ∉ s.given →
      ∀ (id : String) (doc : ScheduleDoc), s.world.docs[id]? = some doc → w'.docs[id]? = some doc) ∧
    ∀ (created : Bool) (doc : ScheduleDoc), result = .ok (.stored created doc) →
      ((s.world.docs[doc.id]? = none ∧ ∀ id, id ≠ doc.id → w'.docs[id]? = s.world.docs[id]?) ↔
        toString (s.world.next_id + 1) ∉ s.given) := by
  have hinv : IdsInv s := by
    refine hrun.invariant_state (I := IdsInv) ?_ fun s req s' h hstep => idsInv_step h hstep
    refine ⟨fun id hid => ?_, fun id hid => nomatch hid⟩
    unfold World.Stores at hid
    rw [hempty] at hid
    simp at hid
  cases exec_schedule_set hset with
  | failed hdocs _ herror =>
    refine ⟨fun _ id doc hdoc => ?_, fun created doc hok => absurd hok (herror _)⟩
    rw [hdocs]
    exact hdoc
  | given hid =>
    rw [hnew] at hid
    cases hid
  | generated hid hwritten =>
    refine ⟨fun hfresh id doc hdoc => ?_, fun created doc hok => ?_⟩
    · rw [hwritten.docs, if_neg]
      · exact hdoc
      · rintro ⟨-, rfl⟩
        have hnone := hinv.generated_iff.mpr hfresh
        exact absurd (hnone.symm.trans hdoc) nofun
    · obtain ⟨hreply, -⟩ := hwritten.reply _ hok
      obtain ⟨-, rfl⟩ := Reply.stored.inj hreply
      constructor
      · rintro ⟨hnone, -⟩
        exact hinv.generated_iff.mp hnone
      · intro hfresh
        refine ⟨hinv.generated_iff.mpr hfresh, fun id hne => ?_⟩
        rw [hwritten.docs, if_neg]
        exact fun hid => hne hid.2.symm

/-! ## Ids that are decimals -/

/-- A schedule under an id, or under a generated one. -/
def hourly (id : Option String) : NewSchedule where
  id
  name := none
  enabled := true
  trigger := .Cron "0 * * * *" 0 none
  fire := .Event .null

def freshWorld : World where
  docs := ∅
  keyed := World.keyed_empty
  next_id := 0
  clock := 0
  fate := .ok
  history := .empty

def runCalls (requests : List SchedulerRequest) : Option (List SchedulerRequest × Calls) :=
  runOf (answerCall .minutely) { world := freshWorld, given := [] } requests

theorem run_runCalls {requests : List SchedulerRequest} {r : List SchedulerRequest × Calls}
    (h : runCalls requests = some r) :
    Run (CallStep .minutely) { world := freshWorld, given := [] } r.1 r.2 :=
  run_runOf (fun _ _ _ _ h => callStep_answerCall h) h

/-- What a request without an id is answered, when all its calls succeed. -/
def setHourly (w : World) : Except String Reply × World :=
  run (World.serveOk .minutely 0) (schedule_set (hourly none) 0) w

theorem generated_id_is_new_iff_sample : ∃ (r : List SchedulerRequest × Calls) (doc : ScheduleDoc),
    runCalls [.Set (hourly (some "backup-db"))] = some r ∧
    (setHourly r.2.world).1 = .ok (.stored true doc) ∧
    r.2.world.docs[doc.id]? = none ∧
    ∀ id, id ≠ doc.id → (setHourly r.2.world).2.docs[id]? = r.2.world.docs[id]? := by
  have hsome : ((runCalls [.Set (hourly (some "backup-db"))]).any fun r =>
      "1" ∉ r.2.given && r.2.world.next_id = 0) = true := by
    decide
  obtain ⟨r, hr, hfresh⟩ := (Option.any_eq_true _ _).mp hsome
  rw [Bool.and_eq_true] at hfresh
  have hnext : r.2.world.next_id = 0 := of_decide_eq_true hfresh.2
  have hgiven : toString (r.2.world.next_id + 1) ∉ r.2.given := by
    rw [hnext]
    exact of_decide_eq_true hfresh.1
  have hset : Exec (Alone .minutely) r.2.world (schedule_set (hourly none) 0)
      (setHourly r.2.world).1 (setHourly r.2.world).2 := exec_serveOk .minutely 0 _ r.2.world
  obtain ⟨-, hiff⟩ := generated_id_is_new_iff rfl (run_runCalls hr) rfl hset
  obtain ⟨hnone, hother⟩ := (hiff true _ rfl).mpr hgiven
  exact ⟨r, _, hr, rfl, hnone, hother⟩

/-- The request without an id replaces the schedule that was set as `1`, and is answered that it has
    created one. -/
theorem generated_id_overwrites : ∃ (trace : List SchedulerRequest) (s : Calls) (doc : ScheduleDoc)
    (w : World),
    Run (CallStep .minutely) { world := freshWorld, given := [] } trace s ∧
    Exec (Alone .minutely) s.world (schedule_set (hourly none) 0) (.ok (.stored true doc)) w ∧
    s.world.docs[doc.id]? ≠ none := by
  have hsome : ((runCalls [.Set (hourly (some "1"))]).any fun r =>
      (r.2.world.docs["1"]?).isSome && r.2.world.next_id = 0) = true := by
    decide
  obtain ⟨r, hr, hstored⟩ := (Option.any_eq_true _ _).mp hsome
  rw [Bool.and_eq_true] at hstored
  have hnext : r.2.world.next_id = 0 := of_decide_eq_true hstored.2
  refine ⟨r.1, r.2, _, _, run_runCalls hr, exec_serveOk .minutely 0 _ r.2.world, ?_⟩
  show r.2.world.docs[toString (r.2.world.next_id + 1)]? ≠ none
  rw [hnext]
  exact Option.isSome_iff_ne_none.mp hstored.1

end Scheduler
