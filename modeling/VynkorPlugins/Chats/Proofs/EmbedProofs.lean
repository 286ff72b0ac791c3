import VynkorPlugins.Chats.Proofs.StoreProofs
import VynkorPlugins.Chats.Worker

/-!
# Late vector writes are queued for cleanup
-/

namespace Chats

open Async Transition

variable {s s' : Store} {w : VectorWrite}

/-! ## What the queue keeps -/

theorem mem_mergeIds {t : String} {ids new : List String} :
    t ∈ mergeIds ids new ↔ t ∈ ids ∨ t ∈ new := by
  induction new generalizing ids with
  | nil => simp [mergeIds]
  | cons a new ih =>
    change t ∈ mergeIds (if a ∈ ids then ids else ids ++ [a]) new ↔ _
    rw [ih, List.mem_cons]
    by_cases ha : a ∈ ids
    · rw [if_pos ha]
      constructor
      · rintro (h | h)
        · exact .inl h
        · exact .inr (.inr h)
      · rintro (h | rfl | h)
        · exact .inl h
        · exact .inl ha
        · exact .inr h
    · rw [if_neg ha, List.mem_append, List.mem_singleton, or_assoc]

theorem names_of_cascade (hw : Names s w)
    (h : s'.cascade[w.session_id]? = s.cascade[w.session_id]?) : Names s' w := by
  obtain ⟨row, hrow, hids⟩ := hw
  exact ⟨row, h.trans hrow, hids⟩

/-- A requeue adds turns to a row. -/
theorem Effect.names_requeued {id : String} {turn_ids : List String}
    (h : Effect s (.requeued id turn_ids) s') (hw : Names s w) : Names s' w := by
  cases h
  by_cases hid : id = w.session_id
  · subst hid
    obtain ⟨row, hrow, hids⟩ := hw
    refine ⟨_, (Table.getElem?_insert_ite _ _ _ _).trans (if_pos rfl), fun tid htid => ?_⟩
    rw [hrow]
    exact mem_mergeIds.mpr (.inl (hids tid htid))
  · exact names_of_cascade hw ((Table.getElem?_insert_ite _ _ _ _).trans (if_neg hid))

theorem Effect.names_requeue {id : String} {turn_ids : List String}
    (h : Effect s (.requeued id turn_ids) s') (hid : w.session_id = id)
    (hids : ∀ tid, w.turn_id = some tid → tid ∈ turn_ids) : Names s' w := by
  cases h
  subst hid
  refine ⟨_, (Table.getElem?_insert_ite _ _ _ _).trans (if_pos rfl), fun tid htid => ?_⟩
  have hmem := hids tid htid
  cases s.cascade[w.session_id]? with
  | none => exact mem_mergeIds.mpr (.inr hmem)
  | some row => exact mem_mergeIds.mpr (.inr hmem)

/-- The session of the vector is live and has the turn, or it has been deleted and is queued. -/
def Covered (s : Store) (w : VectorWrite) : Prop :=
  ((∃ row, s.live w.session_id = some row) ∧ ∀ tid, w.turn_id = some tid →
    ∃ (k : Nat) (t : Turn), s.turns[k]? = some t ∧ t.id = tid ∧ t.session_id = w.session_id) ∨
  ((∃ rev : Nat, s.tombstones[w.session_id]? = some rev) ∧ Names s w)

theorem Covered.names (hw : Covered s w) (hdead : s.live w.session_id = none) : Names s w := by
  rcases hw with ⟨⟨row, hrow⟩, -⟩ | ⟨-, hnames⟩
  · rw [hdead] at hrow
    cases hrow
  · exact hnames

/-- What keeps the live sessions, their turns, the tombstones and the queue keeps a vector covered. -/
theorem Covered.mono (hw : Covered s w)
    (hlive : ∀ row, s.live w.session_id = some row → ∃ row', s'.live w.session_id = some row')
    (hturns : ∀ (k : Nat) (t : Turn), s.turns[k]? = some t → t.session_id = w.session_id →
      ∃ t' : Turn, s'.turns[k]? = some t' ∧ t'.id = t.id ∧ t'.session_id = t.session_id)
    (htomb : ∀ rev : Nat, s.tombstones[w.session_id]? = some rev →
      ∃ rev' : Nat, s'.tombstones[w.session_id]? = some rev')
    (hnames : Names s w → Names s' w) : Covered s' w := by
  rcases hw with ⟨⟨row, hrow⟩, hturn⟩ | ⟨⟨rev, hrev⟩, hn⟩
  · refine .inl ⟨hlive row hrow, fun tid htid => ?_⟩
    obtain ⟨k, t, ht, rfl, hsid⟩ := hturn tid htid
    obtain ⟨t', ht', hid, hsid'⟩ := hturns k t ht hsid
    exact ⟨k, t', ht', hid, hsid'.trans hsid⟩
  · exact .inr ⟨htomb rev hrev, hnames hn⟩

theorem live_insert_live {id id' : String} {row r : Session}
    (h : s'.sessions = s.sessions.insert id row) (hlive : row.state = .live)
    (hid' : s.live id' = some r) : ∃ r', s'.live id' = some r' := by
  rw [live_insert h, if_pos hlive]
  split_ifs
  · exact ⟨row, rfl⟩
  · exact ⟨r, hid'⟩

/-- No call uncovers a vector, but the end of the cleanup of its session. -/
theorem Effect.covered {ev : Event} (h : Effect s ev s') (hw : Covered s w)
    (hfin : ∀ job, ev = .finished job → job.session_id ≠ w.session_id) : Covered s' w := by
  have hstay : ∀ (k : Nat) (t : Turn), s.turns[k]? = some t → t.session_id = w.session_id →
      ∃ t' : Turn, s.turns[k]? = some t' ∧ t'.id = t.id ∧ t'.session_id = t.session_id :=
    fun k t ht _ => ⟨t, ht, rfl, rfl⟩
  have hev := h
  cases h with
  | nothing => exact hw
  | created hlt hid hlive =>
    exact hw.mono (fun row hrow => live_insert_live rfl hlive hrow) hstay (fun rev h => ⟨rev, h⟩)
      (names_of_cascade · rfl)
  | @appended t row hlt hrow =>
    refine hw.mono (fun row' hrow' => live_insert_live rfl (live_eq_some.mp hrow).2 hrow')
      (fun k t' ht' _ => ⟨t', ?_, rfl, rfl⟩) (fun rev h => ⟨rev, h⟩) (names_of_cascade · rfl)
    rw [Table.getElem?_insert_ite, if_neg (Table.lt_nextRowid ht').ne']
    exact ht'
  | edited hlt hrow hlive =>
    exact hw.mono (fun row hrow => live_insert_live rfl hlive hrow) hstay (fun rev h => ⟨rev, h⟩)
      (names_of_cascade · rfl)
  | marked hrow =>
    exact hw.mono (fun row hrow' => live_insert_live rfl (live_eq_some.mp hrow).2 hrow') hstay
      (fun rev h => ⟨rev, h⟩) (names_of_cascade · rfl)
  | @deleted id row row' hlt hrow htomb hdel hrev goal_ids =>
    by_cases hid : id = w.session_id
    · subst hid
      rcases hw with ⟨-, hturn⟩ | ⟨⟨rev, hrev⟩, -⟩
      · refine .inr ⟨⟨s.rev + 1, (Table.getElem?_insert_ite _ _ _ _).trans (if_pos rfl)⟩,
          _, (Table.getElem?_insert_ite _ _ _ _).trans (if_pos rfl), fun tid htid => ?_⟩
        obtain ⟨k, t, ht, rfl, hsid⟩ := hturn tid htid
        refine List.mem_map_of_mem ((List.mem_insertionSort _).mpr ?_)
        exact List.mem_map.mpr ⟨(k, t), Table.mem_selectWhere.mpr ⟨ht, decide_eq_true hsid⟩, rfl⟩
      · rw [htomb] at hrev
        cases hrev
    · refine hw.mono (fun r hr => ⟨r, ?_⟩) (fun k t ht hsid => ⟨t, ?_, rfl, rfl⟩)
        (fun rev h => ⟨rev, ?_⟩) fun hn => names_of_cascade hn ?_
      · rw [hev.live_deleted, if_neg hid]
        exact hr
      · rw [Table.getElem?_deleteWhere, ht]
        simp [Option.filter, hsid, Ne.symm hid]
      · rw [Table.getElem?_insert_ite, if_neg hid]
        exact h
      · rw [Table.getElem?_insert_ite, if_neg hid]
  | requeued => exact hw.mono (fun row h => ⟨row, h⟩) hstay (fun rev h => ⟨rev, h⟩) hev.names_requeued
  | @saved job row keys hrow hgen =>
    refine hw.mono (fun row h => ⟨row, h⟩) hstay (fun rev h => ⟨rev, h⟩) fun hn => ?_
    by_cases hid : job.session_id = w.session_id
    · obtain ⟨row', hrow', hids⟩ := hn
      obtain rfl : row = row' := Option.some.inj (hrow.symm.trans (hid ▸ hrow'))
      exact ⟨_, (Table.getElem?_insert_ite _ _ _ _).trans (if_pos hid), hids⟩
    · exact names_of_cascade hn ((Table.getElem?_insert_ite _ _ _ _).trans (if_neg hid))
  | finished hrow hgen =>
    refine hw.mono (fun row h => ⟨row, ?_⟩) hstay (fun rev h => ⟨rev, h⟩) fun hn =>
      names_of_cascade hn ((Table.getElem?_erase_ite _ _ _).trans (if_neg (hfin _ rfl)))
    rw [hev.live_finished]
    exact h

/-! ## The transactions of a pass -/

/-- The sessions are as live as before, and the turns keep their ids; the rest is unchanged. -/
structure Kept (s s' : Store) : Prop where
  live : ∀ id, (s'.live id).isSome = (s.live id).isSome
  turns : ∀ (k : Nat) (t : Turn), s.turns[k]? = some t →
    ∃ t' : Turn, s'.turns[k]? = some t' ∧ t'.id = t.id ∧ t'.session_id = t.session_id
  tombstones : s'.tombstones = s.tombstones
  cascade : s'.cascade = s.cascade

theorem Kept.refl (s : Store) : Kept s s :=
  ⟨fun _ => rfl, fun _ t ht => ⟨t, ht, rfl, rfl⟩, rfl, rfl⟩

theorem Kept.trans {s'' : Store} (h : Kept s s') (h' : Kept s' s'') : Kept s s'' := by
  refine ⟨fun id => (h'.live id).trans (h.live id), fun k t ht => ?_,
    h'.tombstones.trans h.tombstones, h'.cascade.trans h.cascade⟩
  obtain ⟨t', ht', hid, hsid⟩ := h.turns k t ht
  obtain ⟨t'', ht'', hid', hsid'⟩ := h'.turns k t' ht'
  exact ⟨t'', ht'', hid'.trans hid, hsid'.trans hsid⟩

theorem Kept.covered (h : Kept s s') (hw : Covered s w) : Covered s' w := by
  refine hw.mono (fun row hrow => ?_) (fun k t ht _ => h.turns k t ht) (fun rev hrev => ⟨rev, ?_⟩)
    fun hn => names_of_cascade hn (by rw [h.cascade])
  · rw [← Option.isSome_iff_exists, h.live, hrow]
    rfl
  · rwa [h.tombstones]

theorem kept_updateTurns {ids : List String} {f : Turn → Turn}
    (hf : ∀ t, (f t).id = t.id ∧ (f t).session_id = t.session_id)
    (h : (updateTurns ids f).exec s = .ok (⟨⟩, s')) : Kept s s' := by
  rw [updateTurns, Tx.exec_modify] at h
  obtain ⟨-, rfl⟩ := Prod.mk.inj (Except.ok.inj h)
  refine ⟨fun _ => rfl, fun k t ht => ?_, rfl, rfl⟩
  refine ⟨if t.id ∈ ids then f t else t, ?_, ?_⟩
  · rw [Std.ExtTreeMap.getElem?_map, ht]
    rfl
  · split_ifs
    · exact hf t
    · exact ⟨rfl, rfl⟩

theorem kept_forM {docs : List TurnDoc} {f : Turn → Turn}
    (hf : ∀ t, (f t).id = t.id ∧ (f t).session_id = t.session_id)
    (h : (docs.forM fun d => updateTurns [d.id] f).exec s = .ok (⟨⟩, s')) : Kept s s' := by
  induction docs generalizing s with
  | nil =>
    obtain ⟨-, rfl⟩ := Prod.mk.inj (Except.ok.inj h)
    exact .refl s
  | cons d docs ih =>
    change (updateTurns [d.id] f >>= fun _ => docs.forM fun d => updateTurns [d.id] f).exec s = _ at h
    rw [Tx.exec_bind] at h
    split at h
    · rename_i hd
      exact (kept_updateTurns hf hd).trans (ih h)
    · cases h

theorem kept_updateSession {id : String} {row row' : Session} (hrow : s.live id = some row)
    (hlive : row'.state = .live) : Kept s { s with sessions := s.sessions.insert id row' } := by
  refine ⟨fun id' => ?_, (Kept.refl s).turns, rfl, rfl⟩
  rw [live_insert rfl, if_pos hlive]
  split_ifs with hid
  · rw [← hid, hrow]
    rfl
  · rfl

theorem kept_bumpAttempts {docs : List TurnDoc} {fault : Option String} {r : Except String Unit}
    (h : (bumpAttempts docs fault).exec s = (r, s')) : Kept s s' := by
  unfold bumpAttempts at h
  rcases Db.transaction_cases h with ⟨rfl, -⟩ | ⟨a, -, hbody⟩
  · exact .refl s'
  · refine kept_forM (fun t => ?_) hbody
    exact ⟨rfl, rfl⟩

theorem kept_setEmbedded {docs : List TurnDoc} {fault : Option String} {r : Except String Unit}
    (h : (setEmbedded docs fault).exec s = (r, s')) : Kept s s' := by
  unfold setEmbedded at h
  rcases Db.transaction_cases h with ⟨rfl, -⟩ | ⟨a, -, hbody⟩
  · exact .refl s'
  · refine kept_forM (fun t => ?_) hbody
    exact ⟨rfl, rfl⟩

theorem exec_markDocs {docs : List SessionDoc} {dead : List String}
    (h : (markDocs docs).exec s = .ok (dead, s')) :
    Kept s s' ∧ ∀ d ∈ docs, s.live d.id = none → d.id ∈ dead := by
  induction docs generalizing s dead with
  | nil =>
    obtain ⟨rfl, rfl⟩ := Prod.mk.inj (Except.ok.inj h)
    exact ⟨.refl s, fun d hd => nomatch hd⟩
  | cons d docs ih =>
    rw [markDocs, Tx.exec_bind, Tx.exec_get] at h
    cases hlive : s.live d.id with
    | some row =>
      simp only [hlive, Option.isSome_some, if_true, Tx.exec_bind, exec_updateSession,
        Table.modify_eq_insert _ (live_eq_some.mp hlive).1] at h
      obtain ⟨hkept, hdead⟩ := ih h
      have hfirst := @kept_updateSession s d.id row
        { row with embedded_rev := max row.embedded_rev d.summarized_rev } hlive
        (live_eq_some.mp hlive).2
      refine ⟨hfirst.trans hkept, ?_⟩
      intro d' hd' hnone
      rcases List.mem_cons.mp hd' with rfl | hd'
      · rw [hlive] at hnone
        cases hnone
      · refine hdead d' hd' ?_
        rwa [← Option.not_isSome_iff_eq_none, hfirst.live, Option.not_isSome_iff_eq_none]
    | none =>
      simp only [hlive, Option.isSome_none, Bool.false_eq_true, if_false, Tx.exec_bind] at h
      split at h
      · rename_i hdocs
        obtain ⟨rfl, rfl⟩ := Prod.mk.inj (Except.ok.inj h)
        obtain ⟨hkept, hdead⟩ := ih hdocs
        refine ⟨hkept, fun d' hd' hnone => ?_⟩
        rcases List.mem_cons.mp hd' with rfl | hd'
        · exact List.mem_cons_self
        · exact List.mem_cons_of_mem _ (hdead d' hd' hnone)
      · cases h

/-- The turns that are listed for a session. -/
def Lists (dead : List (String × List String)) (sid tid : String) : Prop :=
  ∃ ids, (sid, ids) ∈ dead ∧ tid ∈ ids

theorem lists_addDead (dead : List (String × List String)) (sid tid : String) :
    Lists (addDead dead sid tid) sid tid := by
  unfold addDead
  split_ifs with h
  · obtain ⟨⟨sid', ids⟩, hd, heq⟩ := List.any_eq_true.mp h
    obtain rfl : sid' = sid := of_decide_eq_true heq
    refine ⟨ids ++ [tid], List.mem_map.mpr ⟨_, hd, if_pos rfl⟩, ?_⟩
    exact List.mem_append_right _ List.mem_cons_self
  · exact ⟨[tid], List.mem_append_right _ List.mem_cons_self, List.mem_cons_self⟩

theorem Lists.addDead {dead : List (String × List String)} {sid tid : String}
    (h : Lists dead sid tid) (sid' tid' : String) : Lists (addDead dead sid' tid') sid tid := by
  obtain ⟨ids, hd, htid⟩ := h
  unfold Chats.addDead
  split_ifs
  · by_cases hid : sid = sid'
    · refine ⟨ids ++ [tid'], List.mem_map.mpr ⟨_, hd, if_pos hid⟩, ?_⟩
      exact List.mem_append_left _ htid
    · exact ⟨ids, List.mem_map.mpr ⟨_, hd, if_neg hid⟩, htid⟩
  · exact ⟨ids, List.mem_append_left _ hd, htid⟩

/-- Every attempted turn of a dead session is listed. -/
theorem lists_deadSessions {attempted : List (String × String)} {sid tid : String}
    (hmem : (sid, tid) ∈ attempted) (hdead : s.live sid = none) :
    Lists (deadSessions s attempted) sid tid := by
  have hfold : ∀ (attempted : List (String × String)) (dead : List (String × List String)),
      Lists dead sid tid ∨ (sid, tid) ∈ attempted →
      Lists (attempted.foldl (fun dead a =>
        if (s.live a.1).isSome then dead else addDead dead a.1 a.2) dead) sid tid := by
    intro attempted
    induction attempted with
    | nil =>
      rintro dead (h | h)
      · exact h
      · cases h
    | cons a attempted ih =>
      intro dead h
      rw [List.foldl_cons]
      refine ih _ ?_
      rcases h with h | h
      · left
        split_ifs
        · exact h
        · exact h.addDead a.1 a.2
      · rcases List.mem_cons.mp h with rfl | h
        · left
          rw [hdead]
          exact lists_addDead dead sid tid
        · exact .inr h
  exact hfold attempted [] (.inr hmem)

/-- Requeues, up to the first error, keep what is queued; without an error every one is made. -/
theorem exec_requeueAll {fault : String → Option String} {dead : List (String × List String)}
    {r : Except String Unit} (h : (requeueAll fault dead).exec s = (r, s')) :
    (∀ id, s'.live id = s.live id) ∧ (Covered s w → Covered s' w) ∧ (Names s w → Names s' w) ∧
    (r = .ok () → ∀ ids, (w.session_id, ids) ∈ dead →
      (∀ tid, w.turn_id = some tid → tid ∈ ids) → Names s' w) := by
  induction dead generalizing s with
  | nil =>
    obtain ⟨rfl, rfl⟩ := Prod.mk.inj h
    exact ⟨fun _ => rfl, id, id, fun _ ids hd => nomatch hd⟩
  | cons d dead ih =>
    rw [requeueAll, Db.exec_bind] at h
    cases hd : (requeue d.1 d.2 (fault d.1)).exec s with
    | mk r₁ s₁ =>
    rw [hd] at h
    unfold requeue at hd
    rcases Db.transaction_cases hd with ⟨rfl, e, rfl⟩ | ⟨a, rfl, hbody⟩
    · obtain ⟨rfl, rfl⟩ := Prod.mk.inj h
      exact ⟨fun _ => rfl, id, id, fun hr => nomatch hr⟩
    · obtain ⟨-, rfl⟩ := Prod.mk.inj (Except.ok.inj hbody)
      have heff : Effect s (.requeued d.1 d.2) _ := .requeued
      obtain ⟨hlive, hcovered, hnames, hdone⟩ := ih h
      refine ⟨hlive, fun hw => hcovered (heff.covered hw fun job hj => nomatch hj),
        fun hw => hnames (heff.names_requeued hw), fun hr ids hids htids => ?_⟩
      rcases List.mem_cons.mp hids with rfl | hids
      · exact hnames (heff.names_requeue rfl htids)
      · exact hdone hr ids hids htids

/-- A call that ends a pass keeps every vector covered; if the database does not refuse it, the dead
    sessions of the pass are queued. -/
structure Settles (batch : List VectorWrite) (s : Store) (r : Except String Unit) (s' : Store) :
    Prop where
  covered : ∀ w, Covered s w → Covered s' w
  queued : r = .ok () → ∀ w ∈ batch, s'.live w.session_id = none → Names s' w

theorem exec_requeueDead {pairs : List (String × String)} {query : Option String}
    {fault : String → Option String} {batch : List VectorWrite} {r : Except String Unit}
    (hbatch : ∀ w ∈ batch, ∃ tid, w.turn_id = some tid ∧ (w.session_id, tid) ∈ pairs)
    (h : (requeueDead pairs query fault).exec s = (r, s')) : Settles batch s r s' := by
  cases query with
  | some e =>
    obtain ⟨rfl, rfl⟩ := Prod.mk.inj h
    exact ⟨fun w hw => hw, fun hr => nomatch hr⟩
  | none =>
    change (requeueAll fault (deadSessions s pairs)).exec s = (r, s') at h
    refine ⟨fun w => (exec_requeueAll h).2.1, fun hr w hw hdead => ?_⟩
    obtain ⟨hlive, -, -, hdone⟩ := @exec_requeueAll _ _ w _ _ _ h
    obtain ⟨tid, htid, hmem⟩ := hbatch w hw
    rw [hlive] at hdead
    obtain ⟨ids, hids, hin⟩ := lists_deadSessions hmem hdead
    refine hdone hr ids hids fun tid' htid' => ?_
    obtain rfl := Option.some.inj (htid.symm.trans htid')
    exact hin

theorem exec_settleTurns {bad good : List TurnDoc} {pairs : List (String × String)}
    {bump mark query : Option String} {fault : String → Option String} {batch : List VectorWrite}
    {r : Except String Unit}
    (hbatch : ∀ w ∈ batch, ∃ tid, w.turn_id = some tid ∧ (w.session_id, tid) ∈ pairs)
    (h : (settleTurns bad good pairs bump mark query fault).exec s = (r, s')) :
    Settles batch s r s' := by
  rw [settleTurns, Db.exec_bind] at h
  cases hbump : (bumpAttempts bad bump).exec s with
  | mk r₁ s₁ =>
  have hkept₁ := kept_bumpAttempts hbump
  rw [hbump] at h
  cases r₁ with
  | error e =>
    obtain ⟨rfl, rfl⟩ := Prod.mk.inj h
    exact ⟨fun w => hkept₁.covered, fun hr => nomatch hr⟩
  | ok u =>
  simp only [Db.exec_bind] at h
  cases hmark : (setEmbedded good mark).exec s₁ with
  | mk r₂ s₂ =>
  have hkept₂ := hkept₁.trans (kept_setEmbedded hmark)
  rw [hmark] at h
  cases r₂ with
  | error e =>
    obtain ⟨rfl, rfl⟩ := Prod.mk.inj h
    exact ⟨fun w => hkept₂.covered, fun hr => nomatch hr⟩
  | ok u =>
    have hrest := exec_requeueDead hbatch h
    exact ⟨fun w hw => hrest.covered w (hkept₂.covered hw), hrest.queued⟩

theorem exec_settleSessions {docs : List SessionDoc} {mark : Option String}
    {fault : String → Option String} {batch : List VectorWrite} {r : Except String Unit}
    (hbatch : ∀ w ∈ batch, w.turn_id = none ∧ ∃ d ∈ docs, d.id = w.session_id)
    (h : (settleSessions docs mark fault).exec s = (r, s')) : Settles batch s r s' := by
  rw [settleSessions, Db.exec_bind] at h
  cases hmark : (markSessions docs mark).exec s with
  | mk r₁ s₁ =>
  rw [hmark] at h
  unfold markSessions at hmark
  rcases Db.transaction_cases hmark with ⟨rfl, e, rfl⟩ | ⟨dead, rfl, hbody⟩
  · obtain ⟨rfl, rfl⟩ := Prod.mk.inj h
    exact ⟨fun w hw => hw, fun hr => nomatch hr⟩
  · obtain ⟨hkept, hdead⟩ := exec_markDocs hbody
    refine ⟨fun w hw => (exec_requeueAll h).2.1 (hkept.covered hw), fun hr w hw hnone => ?_⟩
    obtain ⟨hlive, -, -, hdone⟩ := @exec_requeueAll _ _ w _ _ _ h
    obtain ⟨hturn, d, hd, hid⟩ := hbatch w hw
    refine hdone hr [] (List.mem_map.mpr ⟨d.id, ?_, by rw [hid]⟩) fun tid htid => ?_
    · refine hdead d hd ?_
      rwa [hid, ← Option.not_isSome_iff_eq_none, ← hkept.live, ← hlive,
        Option.not_isSome_iff_eq_none]
    · rw [hturn] at htid
      cases htid

/-! ## What a pass asks for -/

/-- The writes of a pass so far; whether an answer has ended it early; whether it has been settled. -/
structure EmbedView where
  batch : List VectorWrite := []
  failed : Bool := false
  settled : Bool := false

def settles : Await → Bool
  | .settleTurns .. | .requeueDead _ | .settleSessions _ => true
  | _ => false

variable {fails : LaneLabel → Bool}

def EmbedView.next (fails : LaneLabel → Bool) (v : EmbedView) (e : Await) (r : e.Answer) :
    EmbedView where
  batch := v.batch ++ attempted (.act () e r)
  failed := v.failed || fails (.act () e r)
  settled := settles e && !refused (.act () e r)

/-- A pass settles once, with all that it has tried to write. `fails` are the answers that end it
    early. -/
def embedProtocol (fails : LaneLabel → Bool) : Protocol Await Await.Answer EmbedView where
  allowed v e := v.settled = false ∧ match e with
    | .pendingTurns | .pendingSessions => v.batch = []
    | .settleTurns _ _ pairs | .requeueDead pairs =>
      ∀ w ∈ v.batch, ∃ tid, w.turn_id = some tid ∧ (w.session_id, tid) ∈ pairs
    | .settleSessions docs => ∀ w ∈ v.batch, w.turn_id = none ∧ ∃ d ∈ docs, d.id = w.session_id
    | .rpc .. => True
    | _ => False
  next v e r v' := v' = v.next fails e r

/-- How a pass ends: it had nothing to write, it was ended early, or it has settled. -/
def EmbedView.AtEnd (v : EmbedView) : Prop :=
  v.batch = [] ∨ v.failed = true ∨ v.settled = true

theorem batch_next_rpc (v : EmbedView) (action : String) (params : Json) (timeout_ms : Nat)
    (r : Except String Json) :
    (v.next fails (.rpc action params timeout_ms) r).batch = v.batch :=
  List.append_nil _

theorem obeys_embedCall {v : EmbedView} (hv : v.settled = false) (action : String) (params : Json)
    (timeout_ms : Nat) :
    Obeys (embedProtocol fails) (fun v' r => v' = v.next fails (.rpc action params timeout_ms) r) v
      (Lane.call action params timeout_ms) :=
  ⟨⟨hv, trivial⟩, fun _ _ hnext => hnext⟩

theorem obeys_upsertEach {docs : List TurnDoc} {v : EmbedView} (hv : v.settled = false) :
    Obeys (embedProtocol fails) (fun v' _ => v'.settled = false ∧ v'.batch = v.batch) v
      (upsertEach docs) := by
  induction docs generalizing v with
  | nil => exact ⟨hv, rfl⟩
  | cons d docs ih =>
    refine (obeys_embedCall hv _ _ _).bind ?_
    rintro v' one rfl
    refine (ih rfl).bind ?_
    rintro v'' ⟨good, bad⟩ ⟨hset, hbatch⟩
    rw [batch_next_rpc] at hbatch
    cases one with
    | ok reply => exact ⟨hset, hbatch⟩
    | error e => exact ⟨hset, hbatch⟩

/-- An answer to the end of a pass: the pass is settled, or it has failed. -/
theorem atEnd_settled {v : EmbedView} {e : Await} {r : e.Answer}
    (hfails : ∀ l, refused l = true → fails l = true) (he : settles e = true) :
    (v.next fails e r).AtEnd := by
  cases hr : refused (.act () e r) with
  | true => exact .inr (.inl (by simp [EmbedView.next, hfails _ hr]))
  | false => exact .inr (.inr (by simp [EmbedView.next, he, hr]))

/-- The answers that end the turn half before it has queued the dead sessions. -/
def turnsFail (l : LaneLabel) : Bool :=
  refused l || (batchError l).any isMissingPlugin

def sessionsFail (l : LaneLabel) : Bool :=
  refused l || (batchError l).isSome

theorem obeys_embedTurns :
    Obeys (embedProtocol turnsFail) (fun v _ => v.AtEnd) {} embedTurns := by
  have hfails : ∀ l, refused l = true → turnsFail l = true := fun l h => by simp [turnsFail, h]
  refine ⟨⟨rfl, rfl⟩, ?_⟩
  rintro (e | docs) v rfl
  · exact .inl rfl
  change Obeys _ _ _ (if docs.isEmpty then _ else _)
  split_ifs with hempty
  · obtain rfl := List.isEmpty_iff.mp hempty
    exact .inl rfl
  set v : EmbedView := EmbedView.next turnsFail {} .pendingTurns (.ok docs) with hv
  have hbatch : ∀ w ∈ v.batch, ∃ tid, w.turn_id = some tid ∧
      (w.session_id, tid) ∈ docs.map fun d => (d.session_id, d.id) := by
    intro w hw
    obtain ⟨d, hd, rfl⟩ := List.mem_map.mp hw
    exact ⟨d.id, rfl, List.mem_map_of_mem hd⟩
  refine (obeys_embedCall rfl _ _ _).bind ?_
  rintro v₁ (e | reply) rfl
  · simp only
    split_ifs with hmissing
    · exact .inr (.inl (by simp [EmbedView.next, turnsFail, batchError, refused, hmissing]))
    · refine (obeys_embedCall rfl _ _ _).bind ?_
      rintro v₂ (e' | reply) rfl
      · refine ⟨⟨rfl, ?_⟩, fun r v' hnext => hnext ▸ atEnd_settled hfails rfl⟩
        simpa only [batch_next_rpc] using hbatch
      · refine (obeys_upsertEach rfl).bind ?_
        rintro v₃ ⟨good, bad⟩ ⟨hset, hbatch₃⟩
        refine ⟨⟨hset, ?_⟩, fun r v' hnext => hnext ▸ atEnd_settled hfails rfl⟩
        simpa only [hbatch₃, batch_next_rpc] using hbatch
  · refine ⟨⟨rfl, ?_⟩, fun r v' hnext => hnext ▸ atEnd_settled hfails rfl⟩
    simpa only [batch_next_rpc] using hbatch

theorem obeys_embedSessions :
    Obeys (embedProtocol sessionsFail) (fun v _ => v.AtEnd) {} embedSessions := by
  have hfails : ∀ l, refused l = true → sessionsFail l = true := fun l h => by
    simp [sessionsFail, h]
  refine ⟨⟨rfl, rfl⟩, ?_⟩
  rintro (e | docs) v rfl
  · exact .inl rfl
  change Obeys _ _ _ (if docs.isEmpty then _ else _)
  split_ifs with hempty
  · obtain rfl := List.isEmpty_iff.mp hempty
    exact .inl rfl
  refine (obeys_embedCall rfl _ _ _).bind ?_
  rintro v₁ (e | reply) rfl
  · exact .inr (.inl (by simp [EmbedView.next, sessionsFail, batchError]))
  · refine ⟨⟨rfl, ?_⟩, fun r v' hnext => hnext ▸ atEnd_settled hfails rfl⟩
    intro w hw
    rw [batch_next_rpc] at hw
    obtain ⟨d, hd, rfl⟩ := List.mem_map.mp hw
    exact ⟨rfl, d, hd, rfl⟩

/-! ## The invariant -/

variable {v : EmbedView} {trace : List LaneLabel}

/-- The writes of the pass are covered while the cleanup of their sessions is not finished; and after
    the step that settles the pass its dead sessions are queued. -/
structure EmbedInv (fails : LaneLabel → Bool) (v : EmbedView) (trace : List LaneLabel) (s : Store) :
    Prop where
  batch : ∀ l ∈ trace, ∀ w ∈ attempted l, w ∈ v.batch
  failed : v.failed = true → ∃ l ∈ trace, fails l = true
  covered : ∀ w ∈ v.batch, (∀ l ∈ trace, finishes w.session_id l = false) → Covered s w
  settled : v.settled = true → ∀ e r rest, trace = .act () e r :: rest →
    ∀ w ∈ v.batch, s.live w.session_id = none → Names s w

theorem covered_pendingTurns {docs : List TurnDoc} (hdocs : docs = pendingTurns s) {d : TurnDoc}
    (hd : d ∈ docs) : Covered s { session_id := d.session_id, turn_id := some d.id } := by
  subst hdocs
  obtain ⟨⟨t, kind⟩, hmem, rfl⟩ := List.mem_map.mp hd
  obtain ⟨⟨k, t'⟩, hk, hrow⟩ := List.mem_filterMap.mp (List.mem_of_mem_take hmem)
  simp only at hrow
  split at hrow
  · rename_i row hlive
    split_ifs at hrow
    obtain ⟨rfl, rfl⟩ := Prod.mk.inj (Option.some.inj hrow)
    refine .inl ⟨⟨row, hlive⟩, ?_⟩
    rintro tid htid
    obtain rfl := Option.some.inj htid
    exact ⟨k, t', Std.ExtTreeMap.mem_toList_iff_getElem?_eq_some.mp hk, rfl, rfl⟩
  · cases hrow

theorem covered_pendingSessions {docs : List SessionDoc} (hdocs : docs = pendingSessions s)
    {d : SessionDoc} (hd : d ∈ docs) : Covered s { session_id := d.id, turn_id := none } := by
  subst hdocs
  obtain ⟨⟨id, row⟩, hmem, rfl⟩ := List.mem_map.mp hd
  obtain ⟨hrow, hp⟩ := Table.mem_selectWhere.mp
    ((List.mem_insertionSort _).mp (List.mem_of_mem_take hmem))
  simp only [Bool.and_eq_true, decide_eq_true_eq] at hp
  exact .inl ⟨⟨row, live_eq_some.mpr ⟨hrow, hp.1.1⟩⟩, fun tid htid => nomatch htid⟩

theorem EmbedInv.act {e : Await} {r : e.Answer} (hinv : EmbedInv fails v trace s)
    (hnew : ∀ w ∈ attempted (.act () e r), Covered s' w)
    (hkeep : ∀ w, Covered s w → Covered s' w)
    (hsettled : settles e = true → refused (.act () e r) = false →
      ∀ w ∈ v.batch ++ attempted (.act () e r), s'.live w.session_id = none → Names s' w) :
    EmbedInv fails (v.next fails e r) (.act () e r :: trace) s' := by
  constructor
  case batch =>
    intro l hl w hw
    rcases List.mem_cons.mp hl with rfl | hl
    · exact List.mem_append_right _ hw
    · exact List.mem_append_left _ (hinv.batch l hl w hw)
  case failed =>
    intro hf
    rcases (Bool.or_eq_true _ _).mp hf with hf | hf
    · obtain ⟨l, hl, hfl⟩ := hinv.failed hf
      exact ⟨l, List.mem_cons_of_mem _ hl, hfl⟩
    · exact ⟨_, List.mem_cons_self, hf⟩
  case covered =>
    intro w hw hfin
    rcases List.mem_append.mp hw with hw | hw
    · exact hkeep w (hinv.covered w hw fun l hl => hfin l (List.mem_cons_of_mem _ hl))
    · exact hnew w hw
  case settled =>
    intro hset e' r' rest heq
    obtain ⟨he, hr⟩ := (Bool.and_eq_true _ _).mp hset
    exact hsettled he (by simpa using hr)

theorem embedInv_settles {e : Await} {r : e.Answer} {r' : Except String Unit}
    (hinv : EmbedInv fails v trace s) (hnew : attempted (.act () e r) = [])
    (hset : Settles v.batch s r' s') (hr : refused (.act () e r) = false → r' = .ok ()) :
    EmbedInv fails (v.next fails e r) (.act () e r :: trace) s' := by
  refine hinv.act (by simp [hnew]) hset.covered fun _ hok w hw hdead => ?_
  rw [hnew, List.append_nil] at hw
  exact hset.queued (hr hok) w hw hdead

theorem embedInv_act {e : Await} {r : e.Answer} (hinv : EmbedInv fails v trace s)
    (hallowed : (embedProtocol fails).allowed v e) (h : Served s e r s') :
    EmbedInv fails (v.next fails e r) (.act () e r :: trace) s' := by
  have hbatch := hallowed.2
  cases e with
  | pendingTurns =>
    obtain ⟨rfl, hr⟩ := h
    refine hinv.act (fun w hw => ?_) (fun w hw => hw) fun he => nomatch he
    rcases hr with rfl | ⟨e, rfl⟩
    · obtain ⟨d, hd, rfl⟩ := List.mem_map.mp hw
      exact covered_pendingTurns rfl hd
    · cases hw
  | pendingSessions =>
    obtain ⟨rfl, hr⟩ := h
    refine hinv.act (fun w hw => ?_) (fun w hw => hw) fun he => nomatch he
    rcases hr with rfl | ⟨e, rfl⟩
    · obtain ⟨d, hd, rfl⟩ := List.mem_map.mp hw
      exact covered_pendingSessions rfl hd
    · cases hw
  | rpc action params timeout_ms =>
    obtain rfl : s' = s := h
    exact hinv.act (fun w hw => nomatch hw) (fun w hw => hw) fun he => nomatch he
  | settleTurns bad good pairs =>
    obtain ⟨bump, mark, query, fault, h⟩ := h
    refine embedInv_settles hinv rfl (exec_settleTurns hbatch h) fun hr => ?_
    cases r with
    | ok u => rfl
    | error e => cases hr
  | requeueDead pairs =>
    obtain ⟨query, fault, h⟩ := h
    refine embedInv_settles hinv rfl (exec_requeueDead hbatch h) fun hr => ?_
    cases r with
    | ok u => rfl
    | error e => cases hr
  | settleSessions docs =>
    obtain ⟨mark, fault, h⟩ := h
    refine embedInv_settles hinv rfl (exec_settleSessions hbatch h) fun hr => ?_
    cases r with
    | ok u => rfl
    | error e => cases hr
  | _ => exact hbatch.elim

theorem embedInv_call {l : CallLabel} (hinv : EmbedInv fails v trace s) (h : CallStep s l s') :
    EmbedInv fails v (.env l :: trace) s' := by
  obtain ⟨ev, heff, hans⟩ := perform_effect h.1
  constructor
  case batch =>
    intro l' hl w hw
    rcases List.mem_cons.mp hl with rfl | hl
    · cases hw
    · exact hinv.batch l' hl w hw
  case failed =>
    intro hf
    obtain ⟨l', hl, hfl⟩ := hinv.failed hf
    exact ⟨l', List.mem_cons_of_mem _ hl, hfl⟩
  case covered =>
    intro w hw hfin
    have hcov := hinv.covered w hw fun l' hl => hfin l' (List.mem_cons_of_mem _ hl)
    refine heff.covered hcov ?_
    rintro job rfl hjob
    have hnot := hfin (.env l) List.mem_cons_self
    unfold finishes at hnot
    simp only at hnot
    generalize l.call = call at hans hnot
    generalize l.reply = reply at hans hnot
    cases hans
    simp [hjob] at hnot
  case settled =>
    rintro - e r rest heq
    cases heq

/-- Both halves of the pass: at its end a write of a dead session is queued, unless an answer has
    ended the half early and the cleanup of the session was finished while it ran. -/
theorem queued_at_end {half : Lane Unit} {p : LanePool}
    (hhalf : Obeys (embedProtocol fails) (fun v _ => v.AtEnd) {} half)
    (hend : Ended half s trace p) {l : LaneLabel} (hl : l ∈ trace) (hw : w ∈ attempted l)
    (hdead : p.world.live w.session_id = none)
    (hcond : (∀ l ∈ trace, fails l = false) ∨ ∀ l ∈ trace, finishes w.session_id l = false) :
    Names p.world w := by
  have hpool : PoolInv (embedProtocol fails) (fun _ v _ => v.AtEnd)
      (fun g trace s => EmbedInv fails (g ()) trace s) trace p := by
    refine hend.run.invariant ?_ fun trace p l p' ih h => ih.step ?_ ?_ h
    · refine ⟨fun _ => {}, ?_, fun _ => hhalf⟩
      constructor
      case batch => exact fun l hl => nomatch hl
      case failed => exact fun h => nomatch h
      case covered => exact fun w hw => nomatch hw
      case settled => exact fun h => nomatch h
    · intro g trace s _ e r s' hI hallowed h
      refine ⟨(g ()).next fails e r, rfl, ?_⟩
      rw [Function.update_self]
      exact embedInv_act hI hallowed h
    · intro g trace s l s' hI h
      exact embedInv_call hI h.1
  obtain ⟨g, hinv, hobeys⟩ := hpool
  have hmem := hinv.batch l hl w hw
  have hatEnd := hobeys ()
  rw [hend.finished] at hatEnd
  rcases hcond with hcond | hcond
  · rcases hatEnd with hnil | hfailed | hsettled
    · rw [hnil] at hmem
      cases hmem
    · obtain ⟨l', hl', hfl⟩ := hinv.failed hfailed
      rw [hcond l' hl'] at hfl
      cases hfl
    · obtain ⟨e, r, rest, heq⟩ := hend.last
      exact hinv.settled hsettled e r rest heq w hmem hdead
  · exact (hinv.covered w hmem hcond).names hdead

/-- A session that dies while the pass writes its vectors is queued for cleanup when the half of the
    pass ends: for turns, whatever the calls are answered, if the database accepts the end of the
    pass; for summaries, if also the batch was answered `Ok`. Without that it is still queued if its
    cleanup was not finished meanwhile. -/
theorem late_writes_queued {s : Store} {trace : List LaneLabel} {p : LanePool} {l : LaneLabel}
    {w : VectorWrite} (hl : l ∈ trace) (hw : w ∈ attempted l)
    (hdead : p.world.live w.session_id = none) :
    (Ended embedTurns s trace p →
      ((∀ l ∈ trace, refused l = false ∧ (batchError l).any isMissingPlugin = false) ∨
        ∀ l ∈ trace, finishes w.session_id l = false) →
      Names p.world w) ∧
    (Ended embedSessions s trace p →
      ((∀ l ∈ trace, refused l = false ∧ batchError l = none) ∨
        ∀ l ∈ trace, finishes w.session_id l = false) →
      Names p.world w) := by
  constructor
  · intro hend hcond
    refine queued_at_end obeys_embedTurns hend hl hw hdead (hcond.imp_left fun h l hl => ?_)
    rw [turnsFail, (h l hl).1, (h l hl).2]
    rfl
  · intro hend hcond
    refine queued_at_end obeys_embedSessions hend hl hw hdead (hcond.imp_left fun h l hl => ?_)
    rw [sessionsFail, (h l hl).1, (h l hl).2]
    rfl

/-! ## Runs with a delete in flight -/

/-- A session with a turn and a summary. -/
def sampleSession : List LaneRequest :=
  (sampleCalls.take 2).map .call ++ [.call (.apply "S1" 2 (some ⟨"Hi", "A greeting.", []⟩), none)]

/-- A half reads the session; the session is deleted and its cleanup finished; then the half goes on
    with some answers. -/
def deletedInFlight (answers : List (Except String Json)) : List LaneRequest :=
  sampleSession ++ [.act (.ok .null), .call (.delete "S1", none),
    .call (.finish (.ofRow "S1" { turn_ids := ["T1"], goal_ids := ["7"] }) 3000, none)] ++
    answers.map .act

def runHalf (half : Lane Unit) (answers : List (Except String Json)) :
    Option (List LaneLabel × LanePool) :=
  runOf (answerLane BesideEmbed) { tasks := fun _ => half, world := .empty } (deletedInFlight answers)

def isLastAct : List LaneLabel → Bool
  | .act .. :: _ => true
  | _ => false

theorem ended_of_run {half : Lane Unit} {answers : List (Except String Json)}
    {r : List LaneLabel × LanePool} (hr : runHalf half answers = some r)
    (hdone : (r.2.tasks () matches .done _) = true) (hlast : isLastAct r.1 = true) :
    Ended half .empty r.1 r.2 := by
  refine ⟨run_runOf (fun _ _ _ _ h => laneStep_answerLane h) hr, ?_, ?_⟩
  · cases htask : r.2.tasks () with
    | done u => rfl
    | call e k =>
      rw [htask] at hdone
      cases hdone
  · cases htrace : r.1 with
    | nil =>
      rw [htrace] at hlast
      cases hlast
    | cons l rest =>
      rw [htrace] at hlast
      cases l with
      | act i e r => exact ⟨e, r, rest, rfl⟩
      | env l => cases hlast

/-- The batch of turns times out and the vector store is down. -/
def turnsRun : List LaneLabel × LanePool :=
  (runHalf embedTurns [.error "timeout", .error "down", .ok .null]).get (by decide)

def summariesRun : List LaneLabel × LanePool :=
  (runHalf embedSessions [.ok .null, .ok .null]).get (by decide)

theorem mem_of_flatMap_eq {trace : List LaneLabel} {w : VectorWrite}
    (h : trace.flatMap attempted = [w]) : ∃ l ∈ trace, w ∈ attempted l := by
  refine List.mem_flatMap.mp ?_
  rw [h]
  exact List.mem_singleton_self w

theorem late_writes_queued_sample :
    Names turnsRun.2.world { session_id := "S1", turn_id := some "T1" } ∧
      Names summariesRun.2.world { session_id := "S1", turn_id := none } := by
  constructor
  · obtain ⟨l, hl, hw⟩ := @mem_of_flatMap_eq turnsRun.1 { session_id := "S1", turn_id := some "T1" }
      (by decide +kernel)
    have hend : Ended embedTurns .empty turnsRun.1 turnsRun.2 :=
      ended_of_run (Option.some_get _).symm (by decide +kernel) (by decide +kernel)
    have hdead : turnsRun.2.world.live "S1" = none := by decide +kernel
    have hcond : ∀ l ∈ turnsRun.1, refused l = false ∧ (batchError l).any isMissingPlugin = false := by
      decide +kernel
    exact (late_writes_queued hl hw hdead).1 hend (.inl hcond)
  · obtain ⟨l, hl, hw⟩ := @mem_of_flatMap_eq summariesRun.1 { session_id := "S1", turn_id := none }
      (by decide +kernel)
    have hend : Ended embedSessions .empty summariesRun.1 summariesRun.2 :=
      ended_of_run (Option.some_get _).symm (by decide +kernel) (by decide +kernel)
    have hdead : summariesRun.2.world.live "S1" = none := by decide +kernel
    have hcond : ∀ l ∈ summariesRun.1, refused l = false ∧ batchError l = none := by
      decide +kernel
    exact (late_writes_queued hl hw hdead).2 hend (.inl hcond)

/-- The batch of summaries times out: it may have been written, and nothing deletes it. -/
def lostRun : List LaneLabel × LanePool :=
  (runHalf embedSessions [.error "timeout"]).get (by decide)

theorem late_summary_lost :
    Ended embedSessions .empty lostRun.1 lostRun.2 ∧
    lostRun.1.filterMap batchError = ["timeout"] ∧ isMissingPlugin "timeout" = false ∧
    lostRun.1.flatMap attempted = [{ session_id := "S1", turn_id := none }] ∧
    lostRun.2.world.live "S1" = none ∧
    ¬ Names lostRun.2.world { session_id := "S1", turn_id := none } := by
  refine ⟨ended_of_run (Option.some_get _).symm (by decide) (by decide),
    by decide, by decide, by decide, by decide, ?_⟩
  rintro ⟨row, hrow, -⟩
  have hnone : lostRun.2.world.cascade["S1"]?.isNone = true := by decide
  rw [hrow] at hnone
  cases hnone

end Chats
