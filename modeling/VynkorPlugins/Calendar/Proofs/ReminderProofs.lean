import VynkorPlugins.Calendar.Reminders
import VynkorPlugins.Calendar.Proofs.ValidProofs

/-!
# Scans beside edits

A scan writes back the document that it has listed. As long as that is still what is stored, the scan
marks the event and nothing else, and no other scan has a reminder of it left.
-/

namespace Calendar

open Async Transition Rust

namespace Reminders

variable {id : String} {now : Int64} {fire : DueFire} {fires : List DueFire}

/-! ## What a task writes back -/

/-- What a task has read of the event, and whether it has marked it and not published it yet. -/
structure Holding where
  copy : Option EventDoc
  marked : Bool

variable {k : Holding}

/-- What an update makes of the document that it has read. -/
structure Patched (patch : EventPatch) (times_changed : Bool) (old doc : EventDoc) : Prop where
  content : doc.content = patch.merge old.content
  fired : doc.reminder_fired = (!times_changed && old.reminder_fired)

/-- A task writes what it has read, patched or marked, and publishes what it has marked. -/
def Allowed (id : String) (k : Holding) : Eff → Prop
  | .db_set (.event_update patch times_changed) doc =>
    doc.id = id → ∃ old, k.copy = some old ∧ Patched patch times_changed old doc
  | .db_set (.scan_due _) doc =>
    doc.id = id →
      ∃ old, k.copy = some old ∧ old.reminder_fired = false ∧ doc = { old with reminder_fired := true }
  | .db_set _ _ => False
  | .publish_due fire => fire.event.id = id → k.marked = true
  | _ => True

def Next (id : String) (k : Holding) : (e : Eff) → e.Answer → Holding → Prop
  | .db_batch_get _, .ok docs, k' =>
    (docs.map EventDoc.id).Nodup ∧ k' = { k with copy := docs.find? fun doc => doc.id = id }
  | .db_get id', .ok found, k' =>
    (∀ doc, found = some doc → doc.id = id') ∧ k' = if id' = id then { k with copy := found } else k
  | .db_set (.scan_due _) doc, .ok _, k' => k' = if doc.id = id then { k with marked := true } else k
  | .publish_due fire, _, k' => k' = if fire.event.id = id then { k with marked := false } else k
  | _, _, k' => k' = k

def protocol (id : String) : Protocol Eff Eff.Answer Holding where
  allowed := Allowed id
  next := Next id

/-- What is left to be fired. -/
structure Pending (id : String) (k : Holding) (fires : List DueFire) : Prop where
  nodup : (fires.map fun fire => fire.event.id).Nodup
  read : ∀ fire ∈ fires, fire.event.id = id →
    k.copy = some fire.event ∧ fire.event.reminder_fired = false

theorem Pending.tail (h : Pending id k (fire :: fires)) : Pending id k fires where
  nodup := (List.nodup_cons.mp h.nodup).2
  read f hf := h.read f (List.mem_cons_of_mem _ hf)

/-- After the reminder of the event nothing of it is left. -/
theorem Pending.fired (h : Pending id k (fire :: fires)) (hid : fire.event.id = id) (k' : Holding) :
    Pending id k' fires where
  nodup := h.tail.nodup
  read f hf hf' := by
    have hmem : fire.event.id ∈ fires.map fun fire => fire.event.id :=
      List.mem_map.mpr ⟨f, hf, hf'.trans hid.symm⟩
    exact absurd hmem (List.nodup_cons.mp h.nodup).1

theorem Pending.advance (h : Pending id k (fire :: fires)) {k' : Holding}
    (hkept : fire.event.id ≠ id → k' = k) : Pending id k' fires := by
  by_cases hid : fire.event.id = id
  · exact h.fired hid k'
  · rw [hkept hid]
    exact h.tail

theorem obeys_fire_due {notify_enabled : Bool} (h : Pending id k (fire :: fires)) :
    Obeys (protocol id) (fun k' _ => Pending id k' fires) k (fire_due notify_enabled now fire) := by
  unfold fire_due
  refine ⟨fun hid => ?_, ?_⟩
  · obtain ⟨hcopy, hfired⟩ := h.read fire List.mem_cons_self hid
    exact ⟨fire.event, hcopy, hfired, rfl⟩
  rintro (e | _) k' hk'
  · obtain rfl := hk'
    exact h.tail
  have hmarked : k' = if fire.event.id = id then { k with marked := true } else k := hk'
  refine ⟨fun hid => ?_, ?_⟩
  · rw [hmarked, if_pos hid]
  rintro ⟨⟩ k'' hk''
  have hpublished : k'' = if fire.event.id = id then { k' with marked := false } else k' := hk''
  have hkept : fire.event.id ≠ id → k'' = k := by
    intro hne
    rw [hpublished, if_neg hne, hmarked, if_neg hne]
  cases notify_enabled with
  | false => exact h.advance hkept
  | true =>
    refine ⟨trivial, ?_⟩
    rintro r k''' rfl
    exact h.advance hkept

theorem obeys_fire_all {notify_enabled : Bool} (h : Pending id k fires) :
    Obeys (protocol id) (fun _ _ => True) k (fire_all notify_enabled now fires) := by
  induction fires generalizing k with
  | nil => trivial
  | cons fire fires ih =>
    unfold fire_all
    refine (obeys_fire_due h).bind ?_
    rintro k' (_ | _) hk'
    · trivial
    · exact ih hk'

theorem obeys_list :
    Obeys (protocol id) (fun k' r => ∀ docs, r = .ok docs →
      (docs.map EventDoc.id).Nodup ∧ (docs ≠ [] → k'.copy = docs.find? fun doc => doc.id = id))
      k Db.list := by
  unfold Db.list
  refine ⟨trivial, ?_⟩
  rintro (e | keys) k' rfl
  · exact fun docs h => nomatch h
  show Obeys _ _ _ (if keys = [] then _ else _)
  split_ifs
  · rintro docs hdocs
    obtain rfl := Except.ok.inj hdocs
    exact ⟨List.nodup_nil, fun hne => absurd rfl hne⟩
  · refine ⟨trivial, ?_⟩
    rintro (e | docs) k' hnext
    · exact fun docs h => nomatch h
    · rintro docs' hdocs
      obtain rfl := Except.ok.inj hdocs
      obtain ⟨hnodup, rfl⟩ := hnext
      exact ⟨hnodup, fun _ => rfl⟩

/-- The document of an id is found where no other one has the id. -/
theorem find?_id {docs : List EventDoc} {doc : EventDoc} (hnodup : (docs.map EventDoc.id).Nodup)
    (hdoc : doc ∈ docs) (hid : doc.id = id) : (docs.find? fun doc => doc.id = id) = some doc := by
  induction docs with
  | nil => cases hdoc
  | cons head docs ih =>
    rw [List.map_cons, List.nodup_cons] at hnodup
    rw [List.find?_cons]
    by_cases hhead : head.id = id
    · rcases List.mem_cons.mp hdoc with rfl | hmem
      · simp [hid]
      · exact absurd (List.mem_map.mpr ⟨doc, hmem, hid.trans hhead.symm⟩) hnodup.1
    · rcases List.mem_cons.mp hdoc with rfl | hmem
      · exact absurd hid hhead
      · simp only [hhead, decide_false]
        exact ih hnodup.2 hmem

theorem obeys_scan_due {notify_enabled : Bool} :
    Obeys (protocol id) (fun _ _ => True) k (scan_due notify_enabled now) := by
  unfold scan_due
  refine obeys_list.bind ?_
  rintro k' (e | docs) hdocs
  · trivial
  obtain ⟨hnodup, hcopy⟩ := hdocs docs rfl
  have hpending : Pending id k' (due_events docs now) := by
    refine ⟨nodup_due_events hnodup, fun fire hfire hid => ?_⟩
    obtain ⟨hmem, hfired⟩ := of_mem_due_events hfire
    rw [hcopy (List.ne_nil_of_mem hmem)]
    exact ⟨find?_id hnodup hmem hid, hfired⟩
  refine (obeys_fire_all hpending).bind ?_
  rintro k'' (_ | _) -
  · trivial
  · trivial

theorem obeys_event_update (id' : String) (patch : EventPatch) :
    Obeys (protocol id) (fun _ _ => True) k (event_update id' patch) := by
  unfold event_update
  refine ⟨trivial, ?_⟩
  rintro (e | (_ | doc)) k' hk'
  · trivial
  · trivial
  obtain ⟨hdoc, hcopy⟩ := hk'
  dsimp only [Async.bind]
  cases happly : patch.apply doc with
  | error e => trivial
  | ok updated =>
    obtain ⟨hupdated, -⟩ := EventPatch.apply_eq_ok happly
    refine ⟨trivial, ?_⟩
    rintro now k'' rfl
    refine ⟨fun hid => ⟨doc, ?_, ?_⟩, ?_⟩
    · have hid' : id' = id := by
        rw [← hdoc doc rfl, ← hid, hupdated]
        rfl
      rw [hcopy, if_pos hid']
    · rw [hupdated]
      exact ⟨rfl, rfl⟩
    · rintro (e | _) - -
      · trivial
      · trivial

/-- A request that creates no events is not parsed as one that does. -/
theorem keeps_of_parse {c : Crates} {params : Params} {req : CalendarRequest}
    (hkeeps : (Spawn.request params).Keeps) (h : parse_request c params = .ok req) :
    (∀ e, req ≠ .Create e) ∧ ∀ ics, req ≠ .Import ics := by
  cases params with
  | event_create p => cases hkeeps
  | calendar_ics_import ics_base64 => cases hkeeps
  | event_get id =>
    obtain ⟨_, -, rfl⟩ := map_eq_ok.mp h
    exact ⟨(fun _ heq => nomatch heq), fun _ heq => nomatch heq⟩
  | event_update id p =>
    obtain ⟨_, -, h⟩ := bind_eq_ok.mp h
    obtain ⟨_, -, h⟩ := bind_eq_ok.mp h
    obtain rfl := Except.ok.inj h
    exact ⟨(fun _ heq => nomatch heq), fun _ heq => nomatch heq⟩
  | event_delete id =>
    obtain ⟨_, -, rfl⟩ := map_eq_ok.mp h
    exact ⟨(fun _ heq => nomatch heq), fun _ heq => nomatch heq⟩
  | calendar_ics_export =>
    obtain rfl := Except.ok.inj h
    exact ⟨(fun _ heq => nomatch heq), fun _ heq => nomatch heq⟩
  | other action => cases h

theorem obeys_handle_action {c : Crates} {fuel : Nat} {params : Params}
    (hkeeps : (Spawn.request params).Keeps) :
    Obeys (protocol id) (fun _ _ => True) k (handle_action c fuel params) := by
  unfold handle_action
  cases hreq : parse_request c params with
  | error err => trivial
  | ok req =>
    obtain ⟨hcreate, himport⟩ := keeps_of_parse hkeeps hreq
    cases req with
    | Create e => exact absurd rfl (hcreate e)
    | Import ics_base64 => exact absurd rfl (himport ics_base64)
    | Get id =>
      refine ⟨trivial, ?_⟩
      rintro (err | doc) - -
      · trivial
      · trivial
    | Update id patch => exact (obeys_event_update id patch).bind fun _ _ _ => trivial
    | Delete id =>
      refine ⟨trivial, ?_⟩
      rintro (err | deleted) - -
      · trivial
      · trivial
    | Export =>
      show Obeys _ _ _ export_ics
      unfold export_ics
      refine obeys_list.bind ?_
      rintro - (err | events) -
      · trivial
      dsimp only
      split
      · trivial
      · trivial

theorem obeys_task {c : Crates} {config : Config} {spawn : Spawn} (hkeeps : spawn.Keeps) :
    Obeys (protocol id) (fun _ _ => True) k (spawn.task c config) := by
  cases spawn with
  | tick =>
    refine ⟨trivial, ?_⟩
    rintro now k' rfl
    exact obeys_scan_due.bind fun _ _ _ => trivial
  | request params =>
    refine (obeys_handle_action hkeeps).bind ?_
    rintro k' (_ | (err | result)) -
    · trivial
    · exact ⟨trivial, fun _ _ _ => trivial⟩
    · refine ⟨trivial, ?_⟩
      rintro - k'' -
      dsimp only
      split
      · exact ⟨trivial, fun _ _ _ => trivial⟩
      · trivial

/-! ## Invariant -/

variable {g : Nat → Holding} {s s' : Watched} {i : Nat}

/-- What the tasks hold is noted, an unmarked event has no reminder on the way, and the stored event is the
    expected one. -/
structure RemindInv (id : String) (g : Nat → Holding) (s : Watched) : Prop where
  copies : ∀ i, (g i).copy = s.copies i
  marked : ∀ i, (g i).marked = true → i ∈ s.marked
  few : s.published + s.marked.length ≤ 1
  unfired : ∀ doc, s.world.docs[id]? = some doc → doc.reminder_fired = false →
    s.published = 0 ∧ s.marked = []
  kept : s.content id = s.expected

/-- A step whose note is another one. -/
theorem noted {noted other : Watched} (hs : s' = { noted with world := s'.world })
    (h : noted = other) : s' = { other with world := s'.world } := by
  rw [← h]
  exact hs

/-- Nothing of the event changes. -/
theorem RemindInv.keep (h : RemindInv id g s) (hs : s' = { s with world := s'.world })
    (hdocs : s'.world.docs[id]? = s.world.docs[id]?) :
    RemindInv id (Function.update g i (g i)) s' := by
  rw [Function.update_eq_self, hs]
  refine ⟨h.copies, h.marked, h.few, fun doc hdoc => h.unfired doc (hdocs ▸ hdoc), ?_⟩
  have hcontent : s'.content id = s.content id := by
    unfold Watched.content
    rw [hdocs]
  exact hcontent.trans h.kept

theorem RemindInv.reads (h : RemindInv id g s) {found : Option EventDoc}
    (hs : s' = { s.reads i found with world := s'.world })
    (hdocs : s'.world.docs[id]? = s.world.docs[id]?) :
    RemindInv id (Function.update g i { g i with copy := found }) s' := by
  rw [hs]
  refine ⟨fun j => ?_, fun j hj => ?_, h.few, fun doc hdoc => h.unfired doc (hdocs ▸ hdoc), ?_⟩
  · show _ = Function.update s.copies i found j
    by_cases hij : j = i
    · subst hij
      rw [Function.update_self, Function.update_self]
    · rw [Function.update_of_ne hij, Function.update_of_ne hij]
      exact h.copies j
  · by_cases hij : j = i
    · subst hij
      rw [Function.update_self] at hj
      exact h.marked j hj
    · rw [Function.update_of_ne hij] at hj
      exact h.marked j hj
  · have hcontent : s'.content id = s.content id := by
      unfold Watched.content
      rw [hdocs]
    exact hcontent.trans h.kept

/-- The copy that a task writes back is what is stored. -/
theorem RemindInv.stored (h : RemindInv id g s) {old : EventDoc} (hcopy : (g i).copy = some old)
    (hcond : s.copies i = s.world.docs[id]?) : s.world.docs[id]? = some old := by
  rw [← hcond, ← h.copies i, hcopy]

theorem written {world : World} {doc : EventDoc} :
    (world.fate.write world (world.put doc)).docs[id]? =
      if doc.id = id ∧ world.fate.done = true then some doc else world.docs[id]? := by
  rw [Fate.write_eq]
  cases world.fate.done with
  | false => simp
  | true => simp only [if_true, World.getElem?_put, and_true]

theorem deleted {world : World} {id' : String} :
    (world.fate.write world (world.delete id')).docs[id]? =
      if id' = id ∧ world.fate.done = true then none else world.docs[id]? := by
  rw [Fate.write_eq]
  cases world.fate.done with
  | false => simp
  | true => simp only [if_true, World.getElem?_delete, and_true]

theorem act_update {patch : EventPatch} {times_changed : Bool} {doc : EventDoc}
    {r : Except String Unit} (h : RemindInv id g s)
    (hallowed : Allowed id (g i) (.db_set (.event_update patch times_changed) doc))
    (hcond : Unraced id s (.act i (.db_set (.event_update patch times_changed) doc) r))
    (hs : s' = { s.note id i (.db_set (.event_update patch times_changed) doc) r with
      world := s'.world })
    (hdocs : s'.world.docs[id]? =
      if doc.id = id ∧ s.world.fate.done = true then some doc else s.world.docs[id]?) :
    RemindInv id (Function.update g i (g i)) s' := by
  by_cases hdone : doc.id = id ∧ s.world.fate.done = true
  · obtain ⟨hcopies, hclear⟩ := hcond hdone.1 hdone.2
    obtain ⟨old, hold, hpatched⟩ := hallowed hdone.1
    have hstored := h.stored hold hcopies
    rw [if_pos hdone] at hdocs
    have hnote : s' = { s.updates patch times_changed with world := s'.world } :=
      noted hs (if_pos hdone)
    have hcontent : s'.content id = s.expected.map patch.merge := by
      rw [← h.kept]
      unfold Watched.content
      rw [hdocs, hstored]
      exact congrArg some hpatched.content
    rw [Function.update_eq_self, hnote]
    cases times_changed with
    | true =>
      refine ⟨h.copies, h.marked, ?_, fun _ _ _ => ⟨rfl, hclear rfl⟩, hcontent⟩
      show 0 + s.marked.length ≤ 1
      rw [hclear rfl]
      exact Nat.zero_le 1
    | false =>
      refine ⟨h.copies, h.marked, h.few, fun doc' hdoc' hfired => ?_, hcontent⟩
      obtain rfl := Option.some.inj (hdocs.symm.trans hdoc')
      exact h.unfired old hstored (hpatched.fired.symm.trans hfired)
  · rw [if_neg hdone] at hdocs
    exact h.keep (noted hs (if_neg hdone)) hdocs

theorem act_mark {due : DueFire} {doc : EventDoc} {r : Except String Unit} (h : RemindInv id g s)
    (hr : s.world.fate.answer () = r) (hallowed : Allowed id (g i) (.db_set (.scan_due due) doc))
    (hcond : Unraced id s (.act i (.db_set (.scan_due due) doc) r))
    (hs : s' = { s.note id i (.db_set (.scan_due due) doc) r with world := s'.world })
    (hdocs : s'.world.docs[id]? =
      if doc.id = id ∧ s.world.fate.done = true then some doc else s.world.docs[id]?) :
    ∃ k, Next id (g i) (.db_set (.scan_due due) doc) r k ∧
      RemindInv id (Function.update g i k) s' := by
  by_cases hdone : doc.id = id ∧ s.world.fate.done = true
  · obtain ⟨old, hold, hunfired, rfl⟩ := hallowed hdone.1
    have hstored := h.stored hold (hcond hdone.1 hdone.2)
    obtain ⟨hpublished, hmarked⟩ := h.unfired old hstored hunfired
    rw [if_pos hdone] at hdocs
    have hcontent : s'.content id = s.expected := by
      rw [← h.kept]
      unfold Watched.content
      rw [hdocs, hstored]
      rfl
    have hfired : ∀ doc, s'.world.docs[id]? = some doc → doc.reminder_fired ≠ false := by
      intro doc hdoc
      obtain rfl := Option.some.inj (hdocs.symm.trans hdoc)
      exact Bool.noConfusion
    cases r with
    | error e =>
      -- The answer is lost, and the scan ends.
      refine ⟨g i, rfl, ?_⟩
      rw [Function.update_eq_self, hs]
      exact ⟨h.copies, h.marked, h.few, fun doc hdoc hfalse => absurd hfalse (hfired doc hdoc),
        hcontent⟩
    | ok =>
      refine ⟨{ g i with marked := true }, (if_pos hdone.1).symm, ?_⟩
      have hnote : s' = { s with marked := i :: s.marked, world := s'.world } :=
        noted hs (if_pos hdone.1)
      rw [hnote]
      refine ⟨fun j => ?_, fun j hj => ?_, ?_, fun doc hdoc hfalse => absurd hfalse (hfired doc hdoc),
        hcontent⟩
      · by_cases hij : j = i
        · subst hij
          rw [Function.update_self]
          exact h.copies j
        · rw [Function.update_of_ne hij]
          exact h.copies j
      · by_cases hij : j = i
        · exact List.mem_cons.mpr (Or.inl hij)
        · rw [Function.update_of_ne hij] at hj
          exact List.mem_cons_of_mem i (h.marked j hj)
      · show s.published + (i :: s.marked).length ≤ 1
        rw [hpublished, hmarked]
        exact Nat.le_refl 1
  · rw [if_neg hdone] at hdocs
    cases r with
    | error e => exact ⟨g i, rfl, h.keep hs hdocs⟩
    | ok =>
      obtain ⟨hfate, -⟩ := Fate.answer_eq_ok_iff.mp hr
      have hid : doc.id ≠ id := fun hid => hdone ⟨hid, by rw [hfate]; rfl⟩
      exact ⟨g i, (if_neg hid).symm, h.keep (noted hs (if_neg hid)) hdocs⟩

theorem act_publish {due : DueFire} (h : RemindInv id g s)
    (hallowed : Allowed id (g i) (.publish_due due))
    (hs : s' = { s.note id i (.publish_due due) () with world := s'.world })
    (hdocs : s'.world.docs[id]? = s.world.docs[id]?) :
    ∃ k, Next id (g i) (.publish_due due) () k ∧ RemindInv id (Function.update g i k) s' := by
  by_cases hid : due.event.id = id
  · have hmem : i ∈ s.marked := h.marked i (hallowed hid)
    have hnote : s' = { s with marked := s.marked.erase i, published := s.published + 1,
                               world := s'.world } :=
      noted hs (if_pos hid)
    have hcontent : s'.content id = s.expected := by
      rw [← h.kept]
      unfold Watched.content
      rw [hdocs]
    refine ⟨{ g i with marked := false }, (if_pos hid).symm, ?_⟩
    rw [hnote]
    refine ⟨fun j => ?_, fun j hj => ?_, ?_, fun doc hdoc hfalse => ?_, hcontent⟩
    · by_cases hij : j = i
      · subst hij
        rw [Function.update_self]
        exact h.copies j
      · rw [Function.update_of_ne hij]
        exact h.copies j
    · by_cases hij : j = i
      · subst hij
        rw [Function.update_self] at hj
        cases hj
      · rw [Function.update_of_ne hij] at hj
        exact (List.mem_erase_of_ne hij).mpr (h.marked j hj)
    · have hfew := h.few
      have hlength : (s.marked.erase i).length + 1 = s.marked.length :=
        List.length_erase_add_one hmem
      show s.published + 1 + (s.marked.erase i).length ≤ 1
      omega
    · have hnone := (h.unfired doc (hdocs ▸ hdoc) hfalse).2
      rw [hnone] at hmem
      cases hmem
  · exact ⟨g i, (if_neg hid).symm, h.keep (noted hs (if_neg hid)) hdocs⟩

theorem act_delete {id' : String} {r : Except String Bool} (h : RemindInv id g s)
    (hs : s' = { s.note id i (.db_delete id') r with world := s'.world })
    (hdocs : s'.world.docs[id]? =
      if id' = id ∧ s.world.fate.done = true then none else s.world.docs[id]?) :
    RemindInv id (Function.update g i (g i)) s' := by
  by_cases hdone : id' = id ∧ s.world.fate.done = true
  · rw [if_pos hdone] at hdocs
    have hnote : s' = { s with expected := none, world := s'.world } :=
      noted hs (if_pos hdone)
    rw [Function.update_eq_self, hnote]
    refine ⟨h.copies, h.marked, h.few, fun doc hdoc _ => ?_, ?_⟩
    · have hnone := hdocs.symm.trans hdoc
      cases hnone
    · show s'.world.docs[id]?.map EventDoc.content = none
      rw [hdocs]
      rfl
  · rw [if_neg hdone] at hdocs
    exact h.keep (noted hs (if_neg hdone)) hdocs

theorem remindInv_act {e : Eff} {r : e.Answer} (h : RemindInv id g s) (hallowed : Allowed id (g i) e)
    (hserve : HandleWatched id i s e r s') (hcond : Unraced id s (.act i e r)) :
    ∃ k, Next id (g i) e r k ∧ RemindInv id (Function.update g i k) s' := by
  obtain ⟨hhandle, hs⟩ := hserve
  have hr : (s.world.serve e).1 = r := congrArg Prod.fst hhandle
  have hdocs : s'.world.docs[id]? = (s.world.serve e).2.docs[id]? := by
    rw [show (s.world.serve e).2 = s'.world from congrArg Prod.snd hhandle]
  cases e with
  | now => exact ⟨g i, rfl, h.keep hs hdocs⟩
  | db_keys => exact ⟨g i, rfl, h.keep hs hdocs⟩
  | notify_send message => exact ⟨g i, rfl, h.keep hs hdocs⟩
  | reply result => exact ⟨g i, rfl, h.keep hs hdocs⟩
  | publish_changed event => exact ⟨g i, rfl, h.keep hs hdocs⟩
  | publish_due due => exact act_publish h hallowed hs hdocs
  | db_incr =>
    refine ⟨g i, rfl, h.keep hs (hdocs.trans ?_)⟩
    show (s.world.fate.write s.world _).docs[id]? = _
    rw [Fate.write_eq]
    split_ifs
    · rfl
    · rfl
  | db_batch_get keys =>
    cases r with
    | error e => exact ⟨g i, rfl, h.keep hs hdocs⟩
    | ok docs =>
      obtain ⟨-, hrows⟩ := Fate.answer_eq_ok_iff.mp hr
      refine ⟨_, ⟨?_, rfl⟩, h.reads hs hdocs⟩
      rw [← hrows]
      exact s.world.nodup_rows keys
  | db_get id' =>
    cases r with
    | error e => exact ⟨g i, rfl, h.keep hs hdocs⟩
    | ok found =>
      obtain ⟨-, hfound⟩ := Fate.answer_eq_ok_iff.mp hr
      refine ⟨_, ⟨fun doc hdoc => s.world.keyed id' doc (hfound.trans hdoc), rfl⟩, ?_⟩
      by_cases hid : id' = id
      · rw [if_pos hid]
        exact h.reads (noted hs (if_pos hid)) hdocs
      · rw [if_neg hid]
        exact h.keep (noted hs (if_neg hid)) hdocs
  | db_delete id' => exact ⟨g i, rfl, act_delete h hs (hdocs.trans deleted)⟩
  | db_set writer doc =>
    cases writer with
    | event_create => exact False.elim hallowed
    | import_ics event start_ms => exact False.elim hallowed
    | event_update patch times_changed =>
      exact ⟨g i, rfl, act_update h hallowed hcond hs (hdocs.trans written)⟩
    | scan_due due => exact act_mark h hr hallowed hcond hs (hdocs.trans written)

theorem remindInv_start {c : Crates} {config : Config} {spawn : Nat → Spawn} (world : World) :
    RemindInv id (fun _ => { copy := none, marked := false })
      (WatchedTasks.start c config spawn id world).world where
  copies _ := rfl
  marked _ h := Bool.noConfusion h
  few := Nat.zero_le 1
  unfired _ _ _ := ⟨rfl, rfl⟩
  kept := rfl

end Reminders

/-- The reminder of an event is published at most once after its flag was cleared, and what is stored of
    the event is what the updates and deletions have made of it, if each task writes it back as it is
    stored, and the flag is not cleared between a mark and its reminder. -/
theorem scans_remind_once_and_keep_edits {c : Crates} {config : Config} {spawn : Nat → Spawn}
    {id : String} {w₀ : World} {trace : List TaskLabel} {p : WatchedTasks}
    (hspawn : ∀ i, (spawn i).Keeps)
    (hrun : Run (Where (fun p l => Unraced id p.world l) (WatchedStep id))
      (.start c config spawn id w₀) trace p) : p.world.Honoured id := by
  have hinv : PoolInv (Reminders.protocol id) (fun _ _ _ => True)
      (fun g _ s => Reminders.RemindInv id g s) trace p := by
    refine hrun.invariant ?_ fun trace p l p' hp hstep => ?_
    · exact ⟨fun _ => { copy := none, marked := false }, Reminders.remindInv_start w₀,
        fun i => Reminders.obeys_task (hspawn i)⟩
    · refine hp.step ?_ ?_ (hstep.1.where _ hstep.2)
      · intro g trace s i e r s' h hallowed hs
        exact Reminders.remindInv_act h hallowed hs.1 hs.2
      · rintro g trace s l s' h ⟨rfl, -⟩
        exact ⟨h.copies, h.marked, h.few, h.unfired, h.kept⟩
  obtain ⟨g, h, -⟩ := hinv
  refine ⟨?_, h.kept⟩
  have hfew := h.few
  omega

/-! ## Overlapping scans -/

def callDoc : EventDoc where
  id := "1"
  title := "call"
  description := ""
  start_ms := 1000000
  end_ms := none
  all_day := false
  remind_before_ms := some 0
  reminder_fired := false
  tags := []
  ics_uid := none
  rrule := none
  created_at_ms := 0
  updated_at_ms := 0

def notePatch : EventPatch where
  title := none
  description := some "bring the notes"
  start_ms := none
  end_ms := none
  all_day := none
  remind_before_ms := none
  tags := none
  rrule := none

/-- Two ticks of the timer, and an update or the deletion of the event. -/
def twoTicks : Nat → Spawn
  | 0 => .tick
  | 1 => .tick
  | 2 => .request (.event_update "1" notePatch)
  | _ => .request (.event_delete "1")

theorem keeps_twoTicks (i : Nat) : (twoTicks i).Keeps := by
  match i with
  | 0 => trivial
  | 1 => trivial
  | 2 => trivial
  | _ + 3 => trivial

def oneCall : World := (World.empty.put callDoc).turn 1000000 .ok

def runTicks (cond : Watched → TaskLabel → Prop) [∀ s l, Decidable (cond s l)]
    (requests : List TaskRequest) : Option (List TaskLabel × WatchedTasks) :=
  runOf (answerWatched "1" cond)
    (.start noCrates { notify_enabled := true, fuel := 0 } twoTicks "1" oneCall) requests

theorem run_runTicks {cond : Watched → TaskLabel → Prop} [∀ s l, Decidable (cond s l)]
    {requests : List TaskRequest} {r : List TaskLabel × WatchedTasks}
    (h : runTicks cond requests = some r) :
    Run (Where (fun p l => cond p.world l) (WatchedStep "1"))
      (.start noCrates { notify_enabled := true, fuel := 0 } twoTicks "1" oneCall) r.1 r.2 :=
  run_runOf (fun _ _ _ _ h => watchedStep_answerWatched h) h

/-- The event is updated between two scans. -/
def updateBetween : List TaskRequest :=
  List.replicate 6 (.act 0) ++ List.replicate 5 (.act 2) ++ List.replicate 3 (.act 1)

theorem scans_remind_once_and_keep_edits_sample : ∃ r,
    runTicks (Unraced "1") updateBetween = some r ∧
    r.2.world.published = 1 ∧ r.2.world.Honoured "1" := by
  have hsome : ((runTicks (Unraced "1") updateBetween).any fun r =>
      r.2.world.published = 1) = true := by
    decide
  obtain ⟨r, hr, hpublished⟩ := (Option.any_eq_true _ _).mp hsome
  exact ⟨r, hr, of_decide_eq_true hpublished,
    scans_remind_once_and_keep_edits keeps_twoTicks (run_runTicks hr)⟩

/-- Both scans have listed the event when the first one fires, and it is deleted before the second one
    does. -/
def deleteBetween : List TaskRequest :=
  List.replicate 3 (.act 0) ++ List.replicate 3 (.act 1) ++ List.replicate 3 (.act 0) ++
    List.replicate 2 (.act 3) ++ List.replicate 3 (.act 1)

/-- The step that deletes an event. -/
def deletes (id : String) : TaskLabel → Bool
  | .act 3 (.db_delete asked) (.ok true) => asked = id
  | _ => false

/-- The second scan publishes the reminder again and stores the deleted event. -/
theorem overlapping_scans_remind_twice : ∃ trace p,
    Run (WatchedStep "1")
      (.start noCrates { notify_enabled := true, fuel := 0 } twoTicks "1" oneCall) trace p ∧
    .act 3 (.db_delete "1") (.ok true) ∈ trace ∧
    ¬ p.world.published ≤ 1 ∧ p.world.content "1" ≠ p.world.expected := by
  have hsome : ((runTicks (fun _ _ => True) deleteBetween).any fun r =>
      r.1.any (deletes "1") &&
      (r.2.world.published = 2 && r.2.world.expected = none &&
        (r.2.world.content "1").isSome)) = true := by
    decide
  obtain ⟨r, hr, hstored⟩ := (Option.any_eq_true _ _).mp hsome
  simp only [Bool.and_eq_true, decide_eq_true_eq] at hstored
  obtain ⟨hdeleted, ⟨hpublished, hexpected⟩, hcontent⟩ := hstored
  refine ⟨r.1, r.2, (run_runTicks hr).mono fun _ _ _ hl => hl.1, ?_, ?_, fun heq => ?_⟩
  · obtain ⟨l, hl, hmatch⟩ := List.any_eq_true.mp hdeleted
    unfold deletes at hmatch
    split at hmatch
    · obtain rfl := of_decide_eq_true hmatch
      exact hl
    · cases hmatch
  · omega
  · rw [heq, hexpected] at hcontent
    cases hcontent

end Calendar
