import VynkorPlugins.Scheduler.Calls

/-!
# Scans beside changes

A scan writes back whole documents. As long as no request has changed a document since the scan has read
it, the scan leaves what the requests have made of it.
-/

namespace Scheduler

open Async Transition Snapshot

namespace Changes

variable {c : Crates} {id : String} {copy : Option Content} {now_ms : Int64} {fire : DueFire}
  {fires : List DueFire}

/-! ## What a task writes back -/

/-- The copy of the document among the ones that are read. -/
def copyIn (id : String) (docs : List ScheduleDoc) : Option Content :=
  (docs.find? fun doc => doc.id = id).map ScheduleDoc.content

/-- A scan writes what it has read. -/
def Allowed (id : String) (copy : Option Content) : Eff → Prop
  | .db_set .schedule_set _ => True
  | .db_set _ doc => doc.id = id → copy = some doc.content
  | _ => True

def Next (id : String) (copy : Option Content) : (e : Eff) → e.Answer → Option Content → Prop
  | .db_batch_get _, .ok docs, copy' => (docs.map ScheduleDoc.id).Nodup ∧ copy' = copyIn id docs
  | .db_get id', .ok found, copy' =>
    (∀ doc, found = some doc → doc.id = id') ∧
      copy' = if id' = id then found.map ScheduleDoc.content else copy
  | _, _, copy' => copy' = copy

def copyProtocol (id : String) : Protocol Eff Eff.Answer (Option Content) where
  allowed := Allowed id
  next := Next id

/-- What is left to be fired. -/
structure Pending (id : String) (copy : Option Content) (fires : List DueFire) : Prop where
  nodup : (fires.map fun fire => fire.doc.id).Nodup
  read : ∀ fire ∈ fires, fire.doc.id = id → copy = some fire.doc.content

theorem Pending.tail (h : Pending id copy (fire :: fires)) : Pending id copy fires where
  nodup := (List.nodup_cons.mp h.nodup).2
  read f hf := h.read f (List.mem_cons_of_mem _ hf)

/-- After the fire of the schedule nothing of it is left. -/
theorem Pending.fired (h : Pending id copy (fire :: fires)) (hid : fire.doc.id = id)
    (copy' : Option Content) : Pending id copy' fires where
  nodup := h.tail.nodup
  read f hf hf' := by
    have hmem : fire.doc.id ∈ fires.map fun fire => fire.doc.id :=
      List.mem_map.mpr ⟨f, hf, hf'.trans hid.symm⟩
    exact absurd hmem (List.nodup_cons.mp h.nodup).1

/-- The copies of other schedules are left alone. -/
theorem obeys_record_last_error (schedule error : String) :
    Obeys (copyProtocol id) (fun copy' _ => schedule ≠ id → copy' = copy) copy
      (record_last_error schedule error) := by
  unfold record_last_error
  refine ⟨trivial, ?_⟩
  rintro (e | (_ | doc)) copy' hnext
  · exact fun _ => hnext
  · obtain ⟨-, rfl⟩ := hnext
    exact fun hne => if_neg hne
  obtain ⟨hdoc, rfl⟩ := hnext
  obtain rfl := hdoc doc rfl
  dsimp only [Async.bind]
  cases Rust.truncate error MAX_ERROR_BYTES with
  | none => exact fun hne => if_neg hne
  | some msg =>
    refine ⟨trivial, ?_⟩
    rintro now copy' rfl
    refine ⟨fun hid => if_pos hid, ?_⟩
    rintro r copy' rfl
    exact fun hne => if_neg hne

theorem obeys_deliver (marked : MarkedFire) :
    Obeys (copyProtocol id) (fun copy' _ => marked.doc.id ≠ id → copy' = copy) copy
      (deliver marked) := by
  unfold deliver
  split
  · refine ⟨trivial, ?_⟩
    rintro - copy' rfl
    exact fun _ => rfl
  · refine ⟨trivial, ?_⟩
    rintro (e | _) copy' rfl
    · refine (obeys_record_last_error marked.doc.id e).bind ?_
      rintro copy' (_ | _) hkept
      · exact hkept
      · exact hkept
    · exact fun _ => rfl

theorem obeys_fire_due (h : Pending id copy (fire :: fires)) :
    Obeys (copyProtocol id) (fun copy' _ => Pending id copy' fires) copy (fire_due now_ms fire) := by
  unfold fire_due mark_fired
  refine ⟨fun hid => h.read fire List.mem_cons_self hid, ?_⟩
  rintro r copy' rfl
  change Obeys _ _ _ (deliver (fire.marked now_ms))
  refine (obeys_deliver (fire.marked now_ms)).mono fun copy' _ hkept => ?_
  by_cases hid : fire.doc.id = id
  · exact h.fired hid copy'
  · rw [hkept hid]
    exact h.tail

theorem obeys_fire_all (h : Pending id copy fires) :
    Obeys (copyProtocol id) (fun _ _ => True) copy (fire_all now_ms fires) := by
  induction fires generalizing copy with
  | nil => trivial
  | cons fire fires ih =>
    unfold fire_all
    refine (obeys_fire_due h).bind ?_
    rintro copy' (_ | _) hcopy
    · trivial
    · exact ih hcopy

/-- The documents that are read are fired as they are. -/
theorem pending_due {docs : List ScheduleDoc} (hnodup : (docs.map ScheduleDoc.id).Nodup) :
    Pending id (copyIn id docs) (c.due_schedules docs now_ms) := by
  refine ⟨nodup_due_schedules hnodup, fun fire hfire hid => ?_⟩
  have hmem := (mem_due_schedules.mp hfire).1
  unfold copyIn
  have hfind : (docs.find? fun doc => doc.id = id) = some fire.doc := by
    induction docs with
    | nil => cases hmem
    | cons doc docs ih =>
      rw [List.map_cons, List.nodup_cons] at hnodup
      rw [List.find?_cons]
      by_cases hdoc : doc.id = id
      · rcases List.mem_cons.mp hmem with heq | hmem
        · simp [heq, hdoc]
        · exact absurd (List.mem_map.mpr ⟨fire.doc, hmem, hid.trans hdoc.symm⟩) hnodup.1
      · rcases List.mem_cons.mp hmem with rfl | hmem
        · exact absurd hid hdoc
        · simp only [hdoc, decide_false]
          exact ih hnodup.2 (mem_due_schedules.mpr ⟨hmem, (mem_due_schedules.mp hfire).2⟩) hmem
  rw [hfind]
  rfl

theorem obeys_list :
    Obeys (copyProtocol id) (fun copy' r => ∀ docs, r = .ok docs →
      (docs.map ScheduleDoc.id).Nodup ∧ (docs ≠ [] → copy' = copyIn id docs)) copy Db.list := by
  unfold Db.list
  refine ⟨trivial, ?_⟩
  rintro (e | keys) copy' rfl
  · exact fun docs h => nomatch h
  show Obeys _ _ _ (if keys = [] then _ else _)
  split_ifs
  · rintro docs hdocs
    obtain rfl := Except.ok.inj hdocs
    exact ⟨List.nodup_nil, fun hne => absurd rfl hne⟩
  · refine ⟨trivial, ?_⟩
    rintro (e | docs) copy' hnext
    · exact fun docs h => nomatch h
    · rintro docs' hdocs
      obtain rfl := Except.ok.inj hdocs
      exact ⟨hnext.1, fun _ => hnext.2⟩

theorem obeys_scan_due :
    Obeys (copyProtocol id) (fun _ _ => True) copy (scan_due c now_ms) := by
  unfold scan_due
  refine obeys_list.bind ?_
  rintro copy' (e | docs) hdocs
  · trivial
  obtain ⟨hnodup, hcopy⟩ := hdocs docs rfl
  have hpending : Pending id copy' (c.due_schedules docs now_ms) := by
    by_cases hempty : docs = []
    · subst hempty
      exact ⟨List.nodup_nil, fun fire hfire => nomatch hfire⟩
    · rw [hcopy hempty]
      exact pending_due hnodup
  refine (obeys_fire_all hpending).bind ?_
  rintro copy' (_ | _) -
  · trivial
  · trivial

theorem obeys_store (created : Bool) (doc : ScheduleDoc) :
    Obeys (copyProtocol id) (fun _ _ => True) copy (store created doc) := by
  unfold store
  refine ⟨trivial, ?_⟩
  rintro (e | _) copy' -
  · trivial
  · trivial

theorem obeys_schedule_set (new : NewSchedule) :
    Obeys (copyProtocol id) (fun _ _ => True) copy (schedule_set new now_ms) := by
  unfold schedule_set
  split
  · refine ⟨trivial, ?_⟩
    rintro (e | existing) copy' -
    · trivial
    · exact obeys_store _ _
  · refine ⟨trivial, ?_⟩
    rintro (e | n) copy' -
    · trivial
    · exact obeys_store _ _

theorem obeys_apply (req : SchedulerRequest) :
    Obeys (copyProtocol id) (fun _ _ => True) copy (apply c req now_ms) := by
  cases req with
  | Set new => exact obeys_schedule_set new
  | Get id' =>
    refine ⟨trivial, ?_⟩
    rintro (e | doc) copy' -
    · trivial
    · trivial
  | List limit offset =>
    unfold apply
    refine obeys_list.bind ?_
    rintro copy' (e | docs) -
    · trivial
    · trivial
  | Delete id' =>
    refine ⟨trivial, ?_⟩
    rintro (e | deleted) copy' -
    · trivial
    · trivial

theorem obeys_task (spawn : Spawn) :
    Obeys (copyProtocol id) (fun _ _ => True) none (spawn.task c) := by
  cases spawn with
  | tick =>
    refine ⟨trivial, ?_⟩
    rintro now copy' -
    refine obeys_scan_due.bind ?_
    rintro copy' r -
    trivial
  | request req =>
    refine ⟨trivial, ?_⟩
    rintro now copy' -
    refine (obeys_apply req).bind ?_
    rintro copy' r -
    refine ⟨trivial, ?_⟩
    rintro r' copy'' -
    trivial

/-! ## Invariant -/

variable {spawn : Nat → Spawn} {g : Nat → Option Content} {s s' : Watched} {i : Nat}

def CopiesInv (id : String) (g : Nat → Option Content) (s : Watched) : Prop :=
  Coherent (s.content id) g s.record

theorem CopiesInv.congr (h : CopiesInv id g s) (hcontent : s'.content id = s.content id)
    (hrecord : s'.record = s.record) : CopiesInv id g s' := by
  unfold CopiesInv
  rw [hcontent, hrecord]
  exact h

/-- What becomes of the document when another one is written. -/
theorem content_written {doc : ScheduleDoc} {history : History} {world : World} :
    ({ world.fate.write world (world.put doc) with history } : World).docs[id]?.map
        ScheduleDoc.content =
      if doc.id = id ∧ world.fate.done = true then some doc.content
      else world.docs[id]?.map ScheduleDoc.content := by
  rw [Fate.write_eq]
  cases world.fate.done with
  | false => simp
  | true =>
    show ((world.docs.insert doc.id doc)[id]?).map _ = _
    rw [Table.getElem?_insert_ite]
    by_cases hid : doc.id = id
    · simp [hid]
    · simp [hid]

theorem content_deleted {id' : String} {world : World} :
    (world.fate.write world (world.delete id')).docs[id]?.map ScheduleDoc.content =
      if id' = id ∧ world.fate.done = true then none
      else world.docs[id]?.map ScheduleDoc.content := by
  rw [Fate.write_eq]
  cases world.fate.done with
  | false => simp
  | true =>
    show ((world.docs.erase id')[id]?).map _ = _
    rw [Table.getElem?_erase_ite]
    by_cases hid : id' = id
    · simp [hid]
    · simp [hid]

/-- The copy among some documents is that of the stored one, if it is among them. -/
theorem copyIn_rows (w : World) (keys : List String) {v : Content}
    (h : copyIn id (w.rows keys) = some v) : w.docs[id]?.map ScheduleDoc.content = some v := by
  unfold copyIn at h
  obtain ⟨doc, hfind, rfl⟩ := Option.map_eq_some_iff.mp h
  have hid : doc.id = id := by simpa using List.find?_some hfind
  have hstored := w.mem_rows (List.mem_of_find?_eq_some hfind)
  rw [hid] at hstored
  rw [hstored]
  rfl

theorem CopiesInv.keep (h : CopiesInv id g s) (i : Nat) (hcontent : s'.content id = s.content id)
    (hrecord : s'.record = s.record) : CopiesInv id (Function.update g i (g i)) s' := by
  rw [Function.update_eq_self]
  exact h.congr hcontent hrecord

/-- A task reads the documents, and finds this one or does not. -/
theorem CopiesInv.reads (h : CopiesInv id g s) (i : Nat) {found : Option Content}
    (hfound : ∀ v, found = some v → s.content id = some v) (hcontent : s'.content id = s.content id)
    (hrecord : s'.record = s.record.reads i) : CopiesInv id (Function.update g i found) s' := by
  unfold CopiesInv
  rw [hcontent, hrecord]
  exact Coherent.reads h i hfound

theorem CopiesInv.change (h : CopiesInv id g s) (i : Nat)
    (hrecord : s'.record = s.record.change (s'.content id)) :
    CopiesInv id (Function.update g i (g i)) s' := by
  rw [Function.update_eq_self]
  unfold CopiesInv
  rw [hrecord]
  exact Coherent.change h _

/-- A document that a task writes back as it has read it is the stored one. -/
theorem CopiesInv.current (h : CopiesInv id g s) {v : Content} (hcopy : g i = some v)
    (hcurrent : s.record.Current i) : s.content id = some v :=
  Coherent.copies h i v hcopy hcurrent

theorem act_db_batch_get {keys : List String} {r : Except String (List ScheduleDoc)}
    (h : CopiesInv id g s) (hr : s.world.fate.answer (s.world.rows keys) = r)
    (hcontent : s'.content id = s.content id)
    (hrecord : s'.record = s.note id i (.db_batch_get keys) r) :
    ∃ copy, Next id (g i) (.db_batch_get keys) r copy ∧
      CopiesInv id (Function.update g i copy) s' := by
  cases r with
  | error e => exact ⟨_, rfl, h.keep i hcontent hrecord⟩
  | ok docs =>
    obtain ⟨-, rfl⟩ := Fate.answer_eq_ok_iff.mp hr
    have hfound : ∀ v, copyIn id (s.world.rows keys) = some v → s.content id = some v :=
      fun v hv => copyIn_rows s.world keys hv
    exact ⟨_, ⟨s.world.nodup_rows keys, rfl⟩, h.reads i hfound hcontent hrecord⟩

theorem act_db_get {id' : String} {r : Except String (Option ScheduleDoc)}
    (h : CopiesInv id g s) (hr : s.world.fate.answer s.world.docs[id']? = r)
    (hcontent : s'.content id = s.content id) (hrecord : s'.record = s.note id i (.db_get id') r) :
    ∃ copy, Next id (g i) (.db_get id') r copy ∧ CopiesInv id (Function.update g i copy) s' := by
  cases r with
  | error e => exact ⟨_, rfl, h.keep i hcontent hrecord⟩
  | ok found =>
    obtain ⟨-, rfl⟩ := Fate.answer_eq_ok_iff.mp hr
    refine ⟨_, ⟨fun doc hdoc => s.world.keyed id' doc hdoc, rfl⟩, ?_⟩
    by_cases hid : id' = id
    · subst hid
      rw [if_pos rfl]
      exact h.reads i (fun v hv => hv) hcontent (hrecord.trans (if_pos rfl))
    · rw [if_neg hid]
      exact h.keep i hcontent (hrecord.trans (if_neg hid))

theorem act_schedule_set {doc : ScheduleDoc} {r : Except String Unit} (h : CopiesInv id g s)
    (hr : s.world.fate.answer () = r)
    (hcond : doc.id = id → s.world.fate.done = true → s.world.fate.acknowledged = true)
    (hcontent : s'.content id =
      if doc.id = id ∧ s.world.fate.done = true then some doc.content else s.content id)
    (hrecord : s'.record = s.note id i (.db_set .schedule_set doc) r) :
    CopiesInv id (Function.update g i (g i)) s' := by
  cases r with
  | ok =>
    obtain ⟨hfate, -⟩ := Fate.answer_eq_ok_iff.mp hr
    by_cases hid : doc.id = id
    · rw [if_pos ⟨hid, by rw [hfate]; rfl⟩] at hcontent
      refine h.change i ?_
      rw [hcontent]
      exact hrecord.trans (if_pos hid)
    · rw [if_neg fun hdone => hid hdone.1] at hcontent
      exact h.keep i hcontent (hrecord.trans (if_neg hid))
  | error e =>
    have hkept : ¬ (doc.id = id ∧ s.world.fate.done = true) := by
      rintro ⟨hid, hdone⟩
      rw [Fate.acknowledged_iff.mp (hcond hid hdone)] at hr
      cases hr
    rw [if_neg hkept] at hcontent
    exact h.keep i hcontent hrecord

theorem act_db_delete {id' : String} {r : Except String Bool} (h : CopiesInv id g s)
    (hr : s.world.fate.answer (s.world.docs.contains id') = r)
    (hcond : id' = id → s.world.fate.done = true → s.world.fate.acknowledged = true)
    (hcontent : s'.content id =
      if id' = id ∧ s.world.fate.done = true then none else s.content id)
    (hrecord : s'.record = s.note id i (.db_delete id') r) :
    CopiesInv id (Function.update g i (g i)) s' := by
  cases r with
  | ok deleted =>
    obtain ⟨hfate, -⟩ := Fate.answer_eq_ok_iff.mp hr
    by_cases hid : id' = id
    · rw [if_pos ⟨hid, by rw [hfate]; rfl⟩] at hcontent
      refine h.change i ?_
      rw [hcontent]
      exact hrecord.trans (if_pos hid)
    · rw [if_neg fun hdone => hid hdone.1] at hcontent
      exact h.keep i hcontent (hrecord.trans (if_neg hid))
  | error e =>
    have hkept : ¬ (id' = id ∧ s.world.fate.done = true) := by
      rintro ⟨hid, hdone⟩
      rw [Fate.acknowledged_iff.mp (hcond hid hdone)] at hr
      cases hr
    rw [if_neg hkept] at hcontent
    exact h.keep i hcontent hrecord

/-- A scan writes the document back, and leaves what is stored. -/
theorem act_write_back {doc : ScheduleDoc} (h : CopiesInv id g s)
    (hallowed : doc.id = id → g i = some doc.content)
    (hcond : doc.id = id → s.world.fate.done = true → s.record.Current i)
    (hcontent : s'.content id =
      if doc.id = id ∧ s.world.fate.done = true then some doc.content else s.content id)
    (hrecord : s'.record = s.record) : CopiesInv id (Function.update g i (g i)) s' := by
  refine h.keep i ?_ hrecord
  rw [hcontent]
  split_ifs with hwritten
  · exact (h.current (hallowed hwritten.1) (hcond hwritten.1 hwritten.2)).symm
  · rfl

/-- What a call makes of the copies. -/
theorem copiesInv_act {e : Eff} {r : e.Answer} (h : CopiesInv id g s) (hallowed : Allowed id (g i) e)
    (hserve : HandleWatched c spawn id i s e r s') (hcond : Undisturbed id s (.act i e r)) :
    ∃ copy, Next id (g i) e r copy ∧ CopiesInv id (Function.update g i copy) s' := by
  obtain ⟨hhandle, hrecord⟩ := hserve
  have hr : (World.serve c (spawn i) i e s.world).1 = r := congrArg Prod.fst hhandle
  have hworld : s'.world = (World.serve c (spawn i) i e s.world).2 := (congrArg Prod.snd hhandle).symm
  have hcontent : s'.content id =
      (World.serve c (spawn i) i e s.world).2.docs[id]?.map ScheduleDoc.content := by
    rw [← hworld]
    rfl
  cases e with
  | now => exact ⟨_, rfl, h.keep i hcontent hrecord⟩
  | db_keys => exact ⟨_, rfl, h.keep i hcontent hrecord⟩
  | publish_fired m payload => exact ⟨_, rfl, h.keep i hcontent hrecord⟩
  | call_action m name params => exact ⟨_, rfl, h.keep i hcontent hrecord⟩
  | reply result => exact ⟨_, rfl, h.keep i hcontent hrecord⟩
  | db_incr =>
    refine ⟨_, rfl, h.keep i (hcontent.trans ?_) hrecord⟩
    show (s.world.fate.write s.world _).docs[id]?.map _ = _
    rw [Fate.write_eq]
    split_ifs
    · rfl
    · rfl
  | db_batch_get keys =>
    refine act_db_batch_get h hr (hcontent.trans ?_) hrecord
    show (if _ then _ else _ : World).docs[id]?.map _ = _
    split_ifs
    · cases spawn i <;> rfl
    · rfl
  | db_get id' => exact act_db_get h hr hcontent hrecord
  | db_set writer doc =>
    have hwritten := hcontent.trans content_written
    cases writer with
    | schedule_set => exact ⟨_, rfl, act_schedule_set h hr hcond hwritten hrecord⟩
    | mark_fired => exact ⟨_, rfl, act_write_back h hallowed hcond hwritten hrecord⟩
    | record_last_error => exact ⟨_, rfl, act_write_back h hallowed hcond hwritten hrecord⟩
  | db_delete id' =>
    exact ⟨_, rfl, act_db_delete h hr hcond (hcontent.trans content_deleted) hrecord⟩

theorem copiesInv_start (world : World) :
    CopiesInv id (fun _ => none) { world, record := .start } :=
  Coherent.start _

end Changes

/-- What is stored of a schedule is what its last acknowledged change has left, if the scans write back no
    document that was changed since they have read it, and no answer to a change is lost. -/
theorem scans_keep_changes {c : Crates} {spawn : Nat → Spawn} {id : String} {w₀ : World}
    {trace : List TaskLabel} {p : WatchedTasks}
    (hrun : Run (Where (fun p l => Undisturbed id p.world l) (WatchedStep c spawn id))
      (.start c spawn w₀) trace p) : p.world.Honoured id := by
  have hinv : PoolInv (Changes.copyProtocol id) (fun _ _ _ => True)
      (fun g _ s => Changes.CopiesInv id g s) trace p := by
    refine hrun.invariant ?_ fun trace p l p' hp hstep => ?_
    · exact ⟨fun _ => none, Changes.copiesInv_start w₀, fun i => Changes.obeys_task (spawn i)⟩
    · refine hp.step ?_ ?_ (hstep.1.where _ hstep.2)
      · intro g trace s i e r s' h hallowed hs
        exact Changes.copiesInv_act h hallowed hs.1 hs.2
      · rintro g trace s l s' h ⟨rfl, -⟩
        exact h.congr rfl rfl
  obtain ⟨g, h, -⟩ := hinv
  exact h.last

/-! ## A scan and a request -/

def callAt (at_ms : Int64) : NewSchedule where
  id := some "call"
  name := none
  enabled := true
  trigger := .Once at_ms
  fire := .Event .null

/-- A schedule is set, a scan begins, and the schedule is deleted. -/
def setTickDelete : Nat → Spawn
  | 0 => .request (.Set (callAt 1000))
  | 1 => .tick
  | _ => .request (.Delete "call")

def noSchedules : World where
  docs := ∅
  keyed := World.keyed_empty
  next_id := 0
  clock := 0
  fate := .ok
  history := .empty

def runWatched (cond : Watched → TaskLabel → Prop) [∀ s l, Decidable (cond s l)]
    (requests : List TaskRequest) : Option (List TaskLabel × WatchedTasks) :=
  runOf (answerWatched .minutely setTickDelete "call" cond)
    (.start .minutely setTickDelete noSchedules) requests

theorem run_runWatched {cond : Watched → TaskLabel → Prop} [∀ s l, Decidable (cond s l)]
    {requests : List TaskRequest} {r : List TaskLabel × WatchedTasks}
    (h : runWatched cond requests = some r) :
    Run (Where (fun p l => cond p.world l) (WatchedStep .minutely setTickDelete "call"))
      (.start .minutely setTickDelete noSchedules) r.1 r.2 :=
  run_runOf (fun _ _ _ _ h => watchedStep_answerWatched h) h

/-- The schedule is deleted after its fire. -/
def deleteAfterScan : List TaskRequest :=
  List.replicate 4 (.act 0) ++ [.turn 1000 .ok] ++ List.replicate 5 (.act 1) ++
    List.replicate 3 (.act 2)

theorem scans_keep_changes_sample : ∃ r,
    runWatched (Undisturbed "call") deleteAfterScan = some r ∧
    r.2.world.record.changes = 2 ∧ r.2.world.Honoured "call" := by
  have hsome : ((runWatched (Undisturbed "call") deleteAfterScan).any fun r =>
      r.2.world.record.changes = 2) = true := by
    decide
  obtain ⟨r, hr, hchanges⟩ := (Option.any_eq_true _ _).mp hsome
  exact ⟨r, hr, of_decide_eq_true hchanges, scans_keep_changes (run_runWatched hr)⟩

/-- The schedule is deleted when the scan has read it and has not marked it yet. -/
def deleteInScan : List TaskRequest :=
  List.replicate 4 (.act 0) ++ [.turn 1000 .ok] ++ List.replicate 3 (.act 1) ++
    List.replicate 3 (.act 2) ++ List.replicate 2 (.act 1)

/-- The step that deletes a schedule. -/
def deletes (id : String) : TaskLabel → Bool
  | .act 2 (.db_delete asked) (.ok true) => asked = id
  | _ => false

/-- The mark stores the deleted schedule again. -/
theorem scan_restores_deleted : ∃ trace p,
    Run (WatchedStep .minutely setTickDelete "call") (.start .minutely setTickDelete noSchedules)
      trace p ∧
    .act 2 (.db_delete "call") (.ok true) ∈ trace ∧ ¬ p.world.Honoured "call" := by
  have hsome : ((runWatched (fun _ _ => True) deleteInScan).any fun r =>
      r.1.any (deletes "call") &&
      (r.2.world.record.last.any Option.isNone && (r.2.world.content "call").isSome)) = true := by
    decide
  obtain ⟨r, hr, hstored⟩ := (Option.any_eq_true _ _).mp hsome
  rw [Bool.and_eq_true, Bool.and_eq_true] at hstored
  obtain ⟨hdeleted, hlast, hcontent⟩ := hstored
  refine ⟨r.1, r.2, (run_runWatched hr).mono fun _ _ _ hl => hl.1, ?_, fun hhonoured => ?_⟩
  · obtain ⟨l, hl, hmatch⟩ := List.any_eq_true.mp hdeleted
    unfold deletes at hmatch
    split at hmatch
    · obtain rfl := of_decide_eq_true hmatch
      exact hl
    · cases hmatch
  · obtain ⟨v, hv, hnone⟩ := (Option.any_eq_true _ _).mp hlast
    rw [hhonoured v hv, Option.isNone_iff_eq_none.mp hnone] at hcontent
    cases hcontent

end Scheduler
