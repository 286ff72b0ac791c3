import VynkorPlugins.Chats.Proofs.CallProofs

/-!
# The representation invariant of the store
-/

namespace Chats

open Rust Transition

/-- The turns of a session, in the order of their rows. -/
def Store.turnRows (s : Store) (id : String) : List Turn :=
  (s.turns.selectWhere fun _ t => t.session_id = id).map Prod.snd

/-- The representation invariant. -/
structure Store.WellFormed (s : Store) : Prop where
  session_rev : ∀ (id : String) (row : Session), s.sessions[id]? = some row → row.rev ≤ s.rev
  turn_rev : ∀ (k : Nat) (t : Turn), s.turns[k]? = some t → t.rev ≤ s.rev
  tombstone_rev : ∀ (id : String) (rev : Nat), s.tombstones[id]? = some rev → rev ≤ s.rev
  turn_live : ∀ (k : Nat) (t : Turn), s.turns[k]? = some t → ∃ row, s.live t.session_id = some row
  turn_unique : ∀ (k k' : Nat) (t t' : Turn), s.turns[k]? = some t → s.turns[k']? = some t' →
    t.id = t'.id → t = t'
  turns_seq : ∀ id row, s.live id = some row →
    (s.turnRows id).map Turn.seq = List.range' 1 row.turns
  turns_rev : ∀ id row, s.live id = some row → ((s.turnRows id).map Turn.rev).Pairwise (· < ·)
  turns_le : ∀ id row, s.live id = some row → ∀ t ∈ s.turnRows id, t.rev ≤ row.rev
  not_both : ∀ id row, s.live id = some row → s.tombstones[id]? = none
  deleting : ∀ (id : String) (row : Session), s.sessions[id]? = some row → row.state = .deleting →
    (∃ rev, s.tombstones[id]? = some rev) ∧ ∃ crow, s.cascade[id]? = some crow

variable {s s' : Store}

/-! ## Reading a changed store -/

theorem mem_turnRows {id : String} {t : Turn} :
    t ∈ s.turnRows id ↔ t.session_id = id ∧ ∃ k : Nat, s.turns[k]? = some t := by
  constructor
  · intro h
    obtain ⟨⟨k, t'⟩, hmem, rfl⟩ := List.mem_map.mp h
    obtain ⟨hk, hid⟩ := Table.mem_selectWhere.mp hmem
    exact ⟨of_decide_eq_true hid, k, hk⟩
  · rintro ⟨hid, k, hk⟩
    exact List.mem_map.mpr ⟨(k, t), Table.mem_selectWhere.mpr ⟨hk, decide_eq_true hid⟩, rfl⟩

theorem turnRows_congr (h : s'.turns = s.turns) (id : String) : s'.turnRows id = s.turnRows id := by
  rw [Store.turnRows, h, Store.turnRows]

/-- A new turn comes last. -/
theorem turnRows_insert {t : Turn} (h : s'.turns = s.turns.insert s.turns.nextRowid t) (id : String) :
    s'.turnRows id = s.turnRows id ++ if t.session_id = id then [t] else [] := by
  have hlast : ∀ k' r', s.turns[k']? = some r' → compare k' s.turns.nextRowid = .lt := by
    intro k' r' hk'
    exact Nat.compare_eq_lt.mpr (Table.lt_nextRowid hk')
  rw [Store.turnRows, h, Table.selectWhere, Table.toList_insert_of_lt t hlast, List.filter_append,
    List.map_append, Store.turnRows, Table.selectWhere]
  by_cases hid : t.session_id = id <;> simp [hid]

theorem turnRows_deleteWhere {id : String}
    (h : s'.turns = s.turns.deleteWhere fun _ t => t.session_id = id) {id' : String} (hne : id ≠ id') :
    s'.turnRows id' = s.turnRows id' := by
  rw [Store.turnRows, h, Table.selectWhere, Table.toList_deleteWhere, List.filter_filter,
    Store.turnRows, Table.selectWhere]
  congr 1
  refine List.filter_congr fun r _ => ?_
  by_cases hid : r.2.session_id = id' <;> simp [hid, Ne.symm hne]

theorem live_insert {id : String} {row : Session} (h : s'.sessions = s.sessions.insert id row)
    (id' : String) :
    s'.live id' =
      if id = id' then (if row.state = .live then some row else none) else s.live id' := by
  rw [Store.live, h, Table.getElem?_insert_ite]
  by_cases hid : id = id'
  · by_cases hlive : row.state = .live <;> simp [hid, hlive, Option.filter]
  · simp only [hid, if_false]
    rfl

/-- A session that is being deleted can go away unnoticed. -/
theorem live_of_finished {id : String}
    (h : s'.sessions =
      if s.sessions[id]?.any fun row => row.state = .deleting then s.sessions.erase id
      else s.sessions) (id' : String) : s'.live id' = s.live id' := by
  rw [Store.live, h, Store.live]
  split_ifs with hdel
  · obtain ⟨row, hrow, hstate⟩ := (Option.any_eq_true _ _).mp hdel
    rw [Table.getElem?_erase_ite]
    split_ifs with hid
    · rw [← hid, hrow, Option.filter_some, of_decide_eq_true hstate]
      rfl
    · rfl
  · rfl

theorem Effect.live_deleted {id : String} {rev : Nat} (h : Effect s (.deleted id rev) s')
    (id' : String) : s'.live id' = if id = id' then none else s.live id' := by
  cases h with
  | deleted hlt hrow htomb hdel =>
    rw [live_insert rfl, hdel]
    rfl

theorem Effect.live_finished {job : Job} (h : Effect s (.finished job) s') (id : String) :
    s'.live id = s.live id := by
  cases h
  exact live_of_finished rfl id

/-! ## One event -/

theorem wellFormed_empty : Store.empty.WellFormed := by
  have hsessions : ∀ id row, Store.empty.live id = some row → False := by
    intro id row h
    simp [Store.live, Store.empty] at h
  refine ⟨?_, ?_, ?_, ?_, ?_, fun id row h => (hsessions id row h).elim,
    fun id row h => (hsessions id row h).elim, fun id row h => (hsessions id row h).elim,
    fun id row h => (hsessions id row h).elim, ?_⟩ <;> simp [Store.empty]

/-- A live session has a new row, and maybe new turns. -/
theorem wellFormed_session {id : String} {row : Session} {rows : List Turn} (hs : s.WellFormed)
    (hsessions : s'.sessions = s.sessions.insert id row) (hlive : row.state = .live)
    (htomb : s'.tombstones = s.tombstones) (hcascade : s'.cascade = s.cascade)
    (hle : s.rev ≤ s'.rev) (hrev : row.rev ≤ s'.rev) (hnot : s.tombstones[id]? = none)
    (hturns : ∀ (k : Nat) t, s'.turns[k]? = some t →
      s.turns[k]? = some t ∨ t.session_id = id ∧ t.rev ≤ s'.rev)
    (hunique : ∀ (k k' : Nat) (t t' : Turn), s'.turns[k]? = some t → s'.turns[k']? = some t' →
      t.id = t'.id → t = t')
    (hrows : ∀ id', id ≠ id' → s'.turnRows id' = s.turnRows id')
    (hid : s'.turnRows id = rows) (hseq : rows.map Turn.seq = List.range' 1 row.turns)
    (hsorted : (rows.map Turn.rev).Pairwise (· < ·)) (hmax : ∀ t ∈ rows, t.rev ≤ row.rev) :
    s'.WellFormed := by
  subst hid
  have hlive' : ∀ id', s'.live id' = if id = id' then some row else s.live id' := by
    intro id'
    rw [live_insert hsessions, if_pos hlive]
  constructor
  case session_rev =>
    intro id' row' h
    rw [hsessions, Table.getElem?_insert_ite] at h
    split_ifs at h with hid
    · rwa [← Option.some.inj h]
    · exact (hs.session_rev id' row' h).trans hle
  case turn_rev =>
    intro k t h
    rcases hturns k t h with h | ⟨-, h⟩
    · exact (hs.turn_rev k t h).trans hle
    · exact h
  case tombstone_rev =>
    intro id' rev h
    rw [htomb] at h
    exact (hs.tombstone_rev id' rev h).trans hle
  case turn_live =>
    intro k t h
    rw [hlive']
    split_ifs with hid
    · exact ⟨row, rfl⟩
    · rcases hturns k t h with h | ⟨h, -⟩
      · exact hs.turn_live k t h
      · exact absurd h.symm hid
  case turn_unique => exact hunique
  case turns_seq =>
    intro id' row' h
    rw [hlive'] at h
    split_ifs at h with hid
    · rw [← hid, ← Option.some.inj h]
      exact hseq
    · rw [hrows id' hid]
      exact hs.turns_seq id' row' h
  case turns_rev =>
    intro id' row' h
    rw [hlive'] at h
    split_ifs at h with hid
    · rwa [← hid]
    · rw [hrows id' hid]
      exact hs.turns_rev id' row' h
  case turns_le =>
    intro id' row' h
    rw [hlive'] at h
    split_ifs at h with hid
    · rw [← hid, ← Option.some.inj h]
      exact hmax
    · rw [hrows id' hid]
      exact hs.turns_le id' row' h
  case not_both =>
    intro id' row' h
    rw [hlive'] at h
    rw [htomb]
    split_ifs at h with hid
    · rwa [← hid]
    · exact hs.not_both id' row' h
  case deleting =>
    intro id' row' h hdel
    rw [hsessions, Table.getElem?_insert_ite] at h
    rw [htomb, hcascade]
    split_ifs at h with hid
    · rw [← Option.some.inj h, hlive] at hdel
      cases hdel
    · exact hs.deleting id' row' h hdel

/-- A live session leaves a tombstone and a job behind. -/
theorem wellFormed_deleted {id : String} {row : Session} {crow : CascadeRow} (hs : s.WellFormed)
    (hsessions : s'.sessions = s.sessions.insert id row) (hdel : row.state = .deleting)
    (htomb : s'.tombstones = s.tombstones.insert id s'.rev)
    (hcascade : s'.cascade = s.cascade.insert id crow)
    (hturns : s'.turns = s.turns.deleteWhere fun _ t => t.session_id = id)
    (hle : s.rev ≤ s'.rev) (hrev : row.rev ≤ s'.rev) : s'.WellFormed := by
  have hlive : ∀ id', s'.live id' = if id = id' then none else s.live id' := by
    intro id'
    rw [live_insert hsessions, hdel]
    rfl
  have hturn : ∀ (k : Nat) (t : Turn),
      s'.turns[k]? = some t ↔ s.turns[k]? = some t ∧ t.session_id ≠ id := by
    intro k t
    rw [hturns, Table.getElem?_deleteWhere, Option.filter_eq_some_iff]
    simp
  have hrows : ∀ id', id ≠ id' → s'.turnRows id' = s.turnRows id' := fun id' hid =>
    turnRows_deleteWhere hturns hid
  constructor
  case session_rev =>
    intro id' row' h
    rw [hsessions, Table.getElem?_insert_ite] at h
    split_ifs at h with hid
    · rwa [← Option.some.inj h]
    · exact (hs.session_rev id' row' h).trans hle
  case turn_rev =>
    intro k t h
    exact (hs.turn_rev k t ((hturn k t).mp h).1).trans hle
  case tombstone_rev =>
    intro id' rev h
    rw [htomb, Table.getElem?_insert_ite] at h
    split_ifs at h with hid
    · exact (Option.some.inj h).ge
    · exact (hs.tombstone_rev id' rev h).trans hle
  case turn_live =>
    intro k t h
    obtain ⟨h, hid⟩ := (hturn k t).mp h
    rw [hlive, if_neg (Ne.symm hid)]
    exact hs.turn_live k t h
  case turn_unique =>
    intro k k' t t' h h'
    exact hs.turn_unique k k' t t' ((hturn k t).mp h).1 ((hturn k' t').mp h').1
  case turns_seq =>
    intro id' row' h
    rw [hlive] at h
    split_ifs at h with hid
    rw [hrows id' hid]
    exact hs.turns_seq id' row' h
  case turns_rev =>
    intro id' row' h
    rw [hlive] at h
    split_ifs at h with hid
    rw [hrows id' hid]
    exact hs.turns_rev id' row' h
  case turns_le =>
    intro id' row' h
    rw [hlive] at h
    split_ifs at h with hid
    rw [hrows id' hid]
    exact hs.turns_le id' row' h
  case not_both =>
    intro id' row' h
    rw [hlive] at h
    split_ifs at h with hid
    rw [htomb, Table.getElem?_insert_ite, if_neg hid]
    exact hs.not_both id' row' h
  case deleting =>
    intro id' row' h hdel'
    rw [hsessions, Table.getElem?_insert_ite] at h
    rw [htomb, hcascade, Table.getElem?_insert_ite, Table.getElem?_insert_ite]
    split_ifs at h ⊢ with hid
    · exact ⟨⟨_, rfl⟩, _, rfl⟩
    · exact hs.deleting id' row' h hdel'

/-- The jobs change, or a session that is being deleted goes away with its job. -/
theorem wellFormed_cascade (hs : s.WellFormed) (hlive : ∀ id, s'.live id = s.live id)
    (hrev : s'.rev = s.rev) (htomb : s'.tombstones = s.tombstones) (hturns : s'.turns = s.turns)
    (hsessions : ∀ (id : String) (row : Session), s'.sessions[id]? = some row →
      s.sessions[id]? = some row ∧ (row.state = .deleting →
        (∃ crow, s.cascade[id]? = some crow) → ∃ crow, s'.cascade[id]? = some crow)) :
    s'.WellFormed := by
  have hrows := turnRows_congr hturns
  constructor
  case session_rev =>
    intro id row h
    rw [hrev]
    exact hs.session_rev id row (hsessions id row h).1
  case turn_rev => rw [hturns, hrev]; exact hs.turn_rev
  case tombstone_rev => rw [htomb, hrev]; exact hs.tombstone_rev
  case turn_live => simp only [hturns, hlive]; exact hs.turn_live
  case turn_unique => rw [hturns]; exact hs.turn_unique
  case turns_seq => simp only [hrows, hlive]; exact hs.turns_seq
  case turns_rev => simp only [hrows, hlive]; exact hs.turns_rev
  case turns_le => simp only [hrows, hlive]; exact hs.turns_le
  case not_both => simp only [htomb, hlive]; exact hs.not_both
  case deleting =>
    intro id row h hdel
    obtain ⟨h, hkept⟩ := hsessions id row h
    obtain ⟨htombstone, hjob⟩ := hs.deleting id row h hdel
    exact ⟨by rw [htomb]; exact htombstone, hkept hdel hjob⟩

theorem turnRows_eq_nil {id : String} (hs : s.WellFormed) (hid : s.sessions[id]? = none) :
    s.turnRows id = [] := by
  refine List.eq_nil_iff_forall_not_mem.mpr fun t ht => ?_
  obtain ⟨rfl, k, hk⟩ := mem_turnRows.mp ht
  obtain ⟨row, hrow⟩ := hs.turn_live k t hk
  rw [(live_eq_some.mp hrow).1] at hid
  cases hid

/-- Each event keeps the invariant, if the id of a new session is not the one of a deleted session. -/
theorem Effect.wellFormed {ev : Event} (h : Effect s ev s') (hs : s.WellFormed)
    (hfresh : ∀ id, ev = .created id → s.tombstones[id]? = none) : s'.WellFormed := by
  cases h with
  | nothing => exact hs
  | @created id row hlt hid hlive hturns hrev =>
    have hnil := turnRows_eq_nil hs hid
    refine wellFormed_session hs rfl hlive rfl rfl (Nat.le_succ _) hrev.le (hfresh id rfl)
      (fun k t ht => .inl ht) hs.turn_unique (fun id' _ => turnRows_congr rfl id') hnil ?_
      List.Pairwise.nil ?_
    · rw [hturns]
      rfl
    · intro t ht
      cases ht
  | @appended t row hlt hrow hseq hrev hid last_at =>
    have hrows : ∀ id, Store.turnRows { s with turns := s.turns.insert s.turns.nextRowid t } id =
        s.turnRows id ++ if t.session_id = id then [t] else [] := turnRows_insert rfl
    refine wellFormed_session hs rfl (live_eq_some.mp hrow).2 rfl rfl (Nat.le_succ _) le_rfl
      (hs.not_both _ _ hrow) ?_ ?_ ?_ (hrows t.session_id) ?_ ?_ ?_
    · intro k t' ht'
      rw [Table.getElem?_insert_ite] at ht'
      split_ifs at ht' with hk
      · obtain rfl := Option.some.inj ht'
        exact .inr ⟨rfl, hrev.le⟩
      · exact .inl ht'
    · intro k k' t1 t2 h1 h2 heq
      rw [Table.getElem?_insert_ite] at h1 h2
      split_ifs at h1 h2
      · rw [← Option.some.inj h1, ← Option.some.inj h2]
      · exact absurd (heq.symm.trans (congrArg Turn.id (Option.some.inj h1).symm)) (hid k' t2 h2)
      · exact absurd (heq.trans (congrArg Turn.id (Option.some.inj h2).symm)) (hid k t1 h1)
      · exact hs.turn_unique k k' t1 t2 h1 h2 heq
    · intro id' hne
      have := hrows id'
      rw [if_neg hne, List.append_nil] at this
      exact this
    · rw [if_pos rfl, List.map_append, hs.turns_seq _ _ hrow, List.map_singleton, hseq,
        List.range'_1_concat, Nat.add_comm 1]
    · rw [if_pos rfl, List.map_append, List.map_singleton, List.pairwise_append]
      refine ⟨hs.turns_rev _ _ hrow, List.pairwise_singleton _ _, ?_⟩
      intro r hr r' hr'
      obtain ⟨t', ht', rfl⟩ := List.mem_map.mp hr
      rw [List.mem_singleton.mp hr', hrev]
      exact Nat.lt_succ_of_le ((hs.turns_le _ _ hrow t' ht').trans
        (hs.session_rev _ _ (live_eq_some.mp hrow).1))
    · intro t' ht'
      rw [if_pos rfl, List.mem_append, List.mem_singleton] at ht'
      rcases ht' with ht' | rfl
      · exact ((hs.turns_le _ _ hrow t' ht').trans
          (hs.session_rev _ _ (live_eq_some.mp hrow).1)).trans (Nat.le_succ _)
      · exact hrev.le
  | edited hlt hrow hlive hturns hrev =>
    refine wellFormed_session hs rfl hlive rfl rfl (Nat.le_succ _) hrev.le (hs.not_both _ _ hrow)
      (fun k t ht => .inl ht) hs.turn_unique (fun id' _ => turnRows_congr rfl id')
      (turnRows_congr rfl _) ?_ (hs.turns_rev _ _ hrow) ?_
    · rw [hturns]
      exact hs.turns_seq _ _ hrow
    · intro t ht
      rw [hrev]
      exact ((hs.turns_le _ _ hrow t ht).trans
        (hs.session_rev _ _ (live_eq_some.mp hrow).1)).trans (Nat.le_succ _)
  | deleted hlt hrow htomb hdel hrev goal_ids =>
    exact wellFormed_deleted hs rfl hdel rfl rfl rfl (Nat.le_succ _) hrev.le
  | marked hrow summarized_rev embedded_rev =>
    have hrev := hs.session_rev _ _ (live_eq_some.mp hrow).1
    have hseq := hs.turns_seq _ _ hrow
    have hmax := hs.turns_le _ _ hrow
    exact wellFormed_session hs rfl (live_eq_some.mp hrow).2 rfl rfl le_rfl hrev
      (hs.not_both _ _ hrow) (fun k t ht => .inl ht) hs.turn_unique
      (fun id' _ => turnRows_congr rfl id') (turnRows_congr rfl _) hseq (hs.turns_rev _ _ hrow) hmax
  | requeued =>
    refine wellFormed_cascade hs (fun _ => rfl) rfl rfl rfl fun id row h => ⟨h, fun _ hjob => ?_⟩
    simp only [Table.getElem?_insert_ite]
    split_ifs
    · exact ⟨_, rfl⟩
    · exact hjob
  | saved hrow hgen attempts next_at =>
    refine wellFormed_cascade hs (fun _ => rfl) rfl rfl rfl fun id row h => ⟨h, fun _ hjob => ?_⟩
    simp only [Table.getElem?_insert_ite]
    split_ifs
    · exact ⟨_, rfl⟩
    · exact hjob
  | @finished job row hrow hgen swept =>
    refine wellFormed_cascade hs (live_of_finished rfl) rfl rfl rfl fun id row' h => ?_
    simp only [Table.getElem?_erase_ite]
    split_ifs at h with hdel
    · rw [Table.getElem?_erase_ite] at h
      split_ifs at h with hid
      exact ⟨h, fun _ hjob => by rwa [if_neg hid]⟩
    · refine ⟨h, fun hstate hjob => ?_⟩
      have hid : job.session_id ≠ id := by
        rintro rfl
        exact hdel ((Option.any_eq_true _ _).mpr ⟨row', h, decide_eq_true hstate⟩)
      rwa [if_neg hid]

/-! ## Runs -/

theorem Effect.rev_le {ev : Event} (h : Effect s ev s') : s.rev ≤ s'.rev := by
  cases h <;> simp

theorem CallStep.rev_le {l : CallLabel} (h : CallStep s l s') : s.rev ≤ s'.rev := by
  obtain ⟨ev, heff, -⟩ := perform_effect h.1
  exact heff.rev_le

/-- The revision a call has issued is the new one of the store. -/
theorem CallStep.rev_eq {l : CallLabel} {rev : Nat} (h : CallStep s l s') (hl : l.rev = some rev) :
    rev = s'.rev ∧ s.rev < s'.rev := by
  obtain ⟨hperform, hrev⟩ := h
  obtain ⟨ev, heff, hans⟩ := perform_effect hperform
  rw [hl] at hrev
  generalize l.call = call at hans hrev
  generalize l.reply = reply at hans hrev
  cases hans with
  | created =>
    cases heff with
    | created hlt hid hlive hturns hrow =>
      simp only [issuedRev, Table.getElem?_insert_ite, if_true, Option.map_some, hrow,
        Option.some.injEq] at hrev
      exact ⟨hrev, Nat.lt_succ_self _⟩
  | appended hid =>
    cases heff with
    | appended hlt hrow hseq ht =>
      simp only [issuedRev, ht, Option.some.injEq] at hrev
      exact ⟨hrev, Nat.lt_succ_self _⟩
  | updated =>
    cases heff with
    | edited =>
      simp only [issuedRev, Option.some.injEq] at hrev
      exact ⟨hrev, Nat.lt_succ_self _⟩
  | deleted =>
    cases heff with
    | deleted =>
      simp only [issuedRev, if_true, Option.some.injEq] at hrev
      exact ⟨hrev, Nat.lt_succ_self _⟩
  | summarized =>
    cases heff with
    | edited hlt hrow hlive hturns hrow' =>
      simp only [issuedRev, Table.getElem?_insert_ite, if_true, Option.map_some, hrow',
        Option.some.injEq] at hrev
      exact ⟨hrev, Nat.lt_succ_self _⟩
  | failed | found | undeleted | unapplied | marked | requeued | unsaved | saved | unfinished
  | finished => simp [issuedRev] at hrev

/-- The ids of the sessions, also of the deleted ones, are drawn ones. -/
def Drawn (ids : List String) (s : Store) : Prop :=
  (∀ (id : String) (row : Session), s.sessions[id]? = some row → id ∈ ids) ∧
  ∀ (id : String) (rev : Nat), s.tombstones[id]? = some rev → id ∈ ids

theorem Effect.drawn {ev : Event} {ids ids' : List String} (h : Effect s ev s') (hs : Drawn ids s)
    (hids : ∀ id ∈ ids, id ∈ ids') (hnew : ∀ id, ev = .created id → id ∈ ids') : Drawn ids' s' := by
  obtain ⟨hsessions, htomb⟩ := hs
  -- a row that is written again has an id that was there before
  have hkept : ∀ {sessions : Table String Session} {id : String} {row row' : Session},
      s.live id = some row → sessions = s.sessions.insert id row' →
      ∀ (id' : String) (r : Session), sessions[id']? = some r → id' ∈ ids' := by
    rintro sessions id row row' hrow rfl id' r h
    rw [Table.getElem?_insert_ite] at h
    split_ifs at h with hid
    · exact hids _ (hsessions _ row (hid ▸ (live_eq_some.mp hrow).1))
    · exact hids _ (hsessions _ _ h)
  cases h with
  | nothing | requeued | saved =>
    exact ⟨fun id row h => hids _ (hsessions id row h), fun id rev h => hids _ (htomb id rev h)⟩
  | created hlt hid =>
    refine ⟨fun id row h => ?_, fun id rev h => hids _ (htomb id rev h)⟩
    rw [Table.getElem?_insert_ite] at h
    split_ifs at h with heq
    · exact heq ▸ hnew _ rfl
    · exact hids _ (hsessions id row h)
  | appended hlt hrow | edited hlt hrow | marked hrow =>
    exact ⟨hkept hrow rfl, fun id rev h => hids _ (htomb id rev h)⟩
  | deleted hlt hrow =>
    refine ⟨hkept hrow rfl, fun id rev h => ?_⟩
    rw [Table.getElem?_insert_ite] at h
    split_ifs at h with hid
    · exact hids _ (hsessions _ _ (hid ▸ (live_eq_some.mp hrow).1))
    · exact hids _ (htomb id rev h)
  | @finished job =>
    refine ⟨fun id row h => hids _ (hsessions id row ?_), fun id rev h => hids _ (htomb id rev h)⟩
    split_ifs at h
    · rw [Table.getElem?_erase_ite] at h
      split_ifs at h
      exact h
    · exact h

theorem drawn_cons (l : CallLabel) (trace : List CallLabel) :
    drawn (l :: trace) = l.ulid.toList ++ drawn trace := by
  rw [drawn, List.filterMap_cons]
  cases l.ulid <;> rfl

/-- A call keeps the invariant if it draws a new id. -/
theorem CallStep.wellFormed {l : CallLabel} {ids : List String} (h : CallStep s l s')
    (hs : s.WellFormed) (hd : Drawn ids s) (hids : (l.ulid.toList ++ ids).Nodup) :
    s'.WellFormed ∧ Drawn (l.ulid.toList ++ ids) s' := by
  obtain ⟨ev, heff, hans⟩ := perform_effect h.1
  have hnew : ∀ id, ev = .created id → l.ulid = some id := by
    rintro id rfl
    rw [CallLabel.ulid]
    generalize l.call = call at hans
    generalize l.reply = reply at hans
    cases hans
    rfl
  constructor
  · refine heff.wellFormed hs fun id hev => ?_
    rw [hnew id hev, Option.toList_some, List.singleton_append, List.nodup_cons] at hids
    cases htomb : s.tombstones[id]? with
    | none => rfl
    | some rev => exact absurd (hd.2 id rev htomb) hids.1
  · refine heff.drawn hd (fun id hid => List.mem_append_right _ hid) fun id hev => ?_
    rw [hnew id hev]
    exact List.mem_cons_self

/-- What holds of the store after a run in which no id was drawn twice. -/
structure RunInv (trace : List CallLabel) (s : Store) : Prop where
  wellFormed : s.WellFormed
  drawn : Drawn (drawn trace) s
  issued_le : ∀ rev ∈ issued trace, rev ≤ s.rev
  issued_sorted : (issued trace).Pairwise (· > ·)

theorem runInv_step {trace : List CallLabel} {l : CallLabel} (hs : RunInv trace s)
    (h : CallStep s l s') (hids : (drawn (l :: trace)).Nodup) : RunInv (l :: trace) s' := by
  rw [drawn_cons] at hids
  obtain ⟨hwf, hdrawn⟩ := h.wellFormed hs.wellFormed hs.drawn hids
  have hissued : issued (l :: trace) = issued trace ∨
      ∃ rev, issued (l :: trace) = rev :: issued trace ∧ rev = s'.rev ∧ s.rev < s'.rev := by
    cases hl : l.rev with
    | none => exact .inl (List.filterMap_cons_none hl)
    | some rev => exact .inr ⟨rev, List.filterMap_cons_some hl, h.rev_eq hl⟩
  refine ⟨hwf, by rwa [drawn_cons], ?_, ?_⟩
  · intro r hr
    rcases hissued with hissued | ⟨rev, hissued, rfl, -⟩ <;> rw [hissued] at hr
    · exact (hs.issued_le r hr).trans h.rev_le
    · rcases List.mem_cons.mp hr with rfl | hr
      · exact le_rfl
      · exact (hs.issued_le r hr).trans h.rev_le
  · rcases hissued with hissued | ⟨rev, hissued, rfl, hlt⟩ <;> rw [hissued]
    · exact hs.issued_sorted
    · exact List.pairwise_cons.mpr
        ⟨fun r hr => (hs.issued_le r hr).trans_lt hlt, hs.issued_sorted⟩

theorem runInv {trace : List CallLabel} (hrun : Run CallStep .empty trace s)
    (hids : (drawn trace).Nodup) : RunInv trace s := by
  refine hrun.invariant (I := fun trace s => (drawn trace).Nodup → RunInv trace s) ?_ ?_ hids
  · intro _
    exact ⟨wellFormed_empty, by constructor <;> simp [Store.empty], by simp [issued],
      List.Pairwise.nil⟩
  · intro trace s l s' ih h hids
    have hsub : (drawn trace).Sublist (drawn (l :: trace)) :=
      (List.sublist_cons_self l trace).filterMap _
    exact runInv_step (ih (hids.sublist hsub)) h hids

/-- The rows of a session are in the order of their turns. -/
theorem sessionTurns_eq {id : String} {row : Session} (hs : s.WellFormed)
    (hrow : s.live id = some row) : s.sessionTurns id = s.turnRows id := by
  refine List.Pairwise.insertionSort_eq ?_
  have hseq : ((s.turnRows id).map Turn.seq).Pairwise (· < ·) := by
    rw [hs.turns_seq id row hrow]
    exact List.pairwise_lt_range'
  exact (List.pairwise_map.mp hseq).imp le_of_lt

/-- The representation invariant holds after every run of calls with any arguments, whichever of
    them fail, if no id is drawn twice; revisions only grow, and no two calls issue the same one. -/
theorem store_invariant {trace : List CallLabel} (hrun : Run CallStep .empty trace s)
    (hids : (drawn trace).Nodup) :
    (∀ trace' s', Run CallStep s trace' s' → s.rev ≤ s'.rev) ∧
    (∀ (id : String) (row : Session), s.sessions[id]? = some row → row.rev ≤ s.rev) ∧
    (∀ (k : Nat) (t : Turn), s.turns[k]? = some t → t.rev ≤ s.rev) ∧
    (∀ (id : String) (rev : Nat), s.tombstones[id]? = some rev → rev ≤ s.rev) ∧
    (∀ id row, s.live id = some row →
      (s.sessionTurns id).map Turn.seq = List.range' 1 row.turns ∧
      ((s.sessionTurns id).map Turn.rev).Pairwise (· < ·) ∧
      ∀ t ∈ s.sessionTurns id, t.rev ≤ row.rev) ∧
    (∀ (k : Nat) (t : Turn), s.turns[k]? = some t → ∃ row, s.live t.session_id = some row) ∧
    (∀ id row, s.live id = some row → s.tombstones[id]? = none) ∧
    (∀ (id : String) (row : Session), s.sessions[id]? = some row → row.state = .deleting →
      (∃ rev, s.tombstones[id]? = some rev) ∧ ∃ crow, s.cascade[id]? = some crow) ∧
    (issued trace).Nodup := by
  have hinv := runInv hrun hids
  have hs := hinv.wellFormed
  refine ⟨?_, hs.session_rev, hs.turn_rev, hs.tombstone_rev, ?_, hs.turn_live, hs.not_both,
    hs.deleting, ?_⟩
  · intro trace' s' hrun'
    exact hrun'.invariant_state (I := fun s' => s.rev ≤ s'.rev) le_rfl
      fun _ _ _ hle h => hle.trans h.rev_le
  · intro id row hrow
    rw [sessionTurns_eq hs hrow]
    exact ⟨hs.turns_seq id row hrow, hs.turns_rev id row hrow, hs.turns_le id row hrow⟩
  · exact hinv.issued_sorted.imp ne_of_gt

/-- Two sessions with a turn each, one of which is deleted; an append to it is refused. -/
def sampleCalls : List CallRequest :=
  [(.resolve {} ⟨"lap", "chat", "", none⟩ 1000 "S1", none),
    (.append {} ⟨"S1", "hi", "hello", "ok", .null, some "7"⟩ 1001 "T1", none),
    (.resolve {} ⟨"car", "voice", "", none⟩ 2000 "S2", none),
    (.delete "S1", none),
    (.append {} ⟨"S1", "late", "", "ok", .null, none⟩ 2001 "T2", none),
    (.append {} ⟨"S2", "hi", "hello", "ok", .null, none⟩ 2002 "T3", none)]

def sampleRun : List CallLabel × Store :=
  (runOf (fun s a => some (answerCall s a)) .empty sampleCalls).get (by decide)

theorem store_invariant_sample : (drawn sampleRun.1).Nodup ∧ (issued sampleRun.1).Nodup := by
  have hrun : Run CallStep .empty sampleRun.1 sampleRun.2 := by
    refine run_runOf (fun s a l s' h => ?_) (Option.some_get _).symm
    obtain ⟨rfl, rfl⟩ := Prod.mk.inj (Option.some.inj h)
    exact callStep_answerCall s a
  have hids : (drawn sampleRun.1).Nodup := by decide
  exact ⟨hids, (store_invariant hrun hids).2.2.2.2.2.2.2.2⟩

end Chats
