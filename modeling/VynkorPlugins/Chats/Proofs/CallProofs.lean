import VynkorPlugins.Chats.Calls

/-!
# The calls have the effects of their answers
-/

namespace Chats

open Rust

variable {s s' : Store} {fault : Option String}

/-! ## Statements -/

theorem exec_nextRev {rev : Nat} (h : nextRev.exec s = .ok (rev, s')) :
    ∃ hlt : s.rev < i64Max, rev = s.rev + 1 ∧
      s' = { s with rev := s.rev + 1, rev_le := hlt } := by
  unfold nextRev at h
  rw [Tx.exec_bind, Tx.exec_get] at h
  by_cases hlt : s.rev < i64Max
  · simp only [hlt, dif_pos, Tx.exec_bind, Tx.exec_set, Tx.exec_pure] at h
    obtain ⟨rfl, rfl⟩ := Prod.mk.inj (Except.ok.inj h)
    exact ⟨hlt, rfl, rfl⟩
  · simp only [hlt, dif_neg, not_false_eq_true, Tx.exec_throw] at h
    cases h

@[simp] theorem exec_updateSession (id : String) (f : Session → Session) :
    (updateSession id f).exec s = .ok (⟨⟩, { s with sessions := s.sessions.modify id f }) := rfl

theorem live_eq_some {id : String} {row : Session} :
    s.live id = some row ↔ s.sessions[id]? = some row ∧ row.state = .live := by
  simp [Store.live, Option.filter_eq_some_iff]

theorem exec_newSession {p : ResolveParams} {now : Int} {ulid id : String}
    (h : (newSession p now ulid).exec s = .ok (id, s')) :
    id = ulid ∧ Effect s (.created ulid) s' ∧
      ∀ cfg, Rows s (.resolve cfg p now ulid) (.ok (.resolved ulid true)) s'.sessions := by
  unfold newSession at h
  rw [Tx.exec_bind] at h
  cases hrev : nextRev.exec s with
  | error e => rw [hrev] at h; cases h
  | ok r =>
    obtain ⟨rev, s1⟩ := r
    obtain ⟨hlt, rfl, rfl⟩ := exec_nextRev hrev
    rw [hrev] at h
    simp only [Tx.exec_bind, Tx.exec_get] at h
    cases hid : s.sessions[ulid]? with
    | some row =>
      have hmem : s.sessions.contains ulid := by
        rw [Std.ExtTreeMap.contains_eq_isSome_getElem?, hid]; rfl
      simp only [hmem, if_true] at h
      cases h
    | none =>
      have hmem : s.sessions.contains ulid = false := by
        rw [Std.ExtTreeMap.contains_eq_isSome_getElem?, hid]; rfl
      simp only [hmem, Bool.false_eq_true, if_false] at h
      obtain ⟨rfl, rfl⟩ := Prod.mk.inj (Except.ok.inj h)
      exact ⟨rfl, .created hlt hid rfl rfl rfl, fun _ => .created hid⟩

theorem exec_insertTurn {t : Turn} (h : (insertTurn t).exec s = .ok (⟨⟩, s')) :
    (∀ (k : Nat) (t' : Turn), s.turns[k]? = some t' → t'.id ≠ t.id) ∧
      s' = { s with turns := s.turns.insert s.turns.nextRowid t } := by
  unfold insertTurn at h
  rw [Tx.exec_bind, Tx.exec_get] at h
  by_cases hid : ((s.turns.toList.map Prod.snd).any fun t' => t'.id = t.id) = true
  · simp only [hid, if_true] at h
    cases h
  simp only [hid, Bool.false_eq_true, if_false] at h
  by_cases hseq : ((s.turns.toList.map Prod.snd).any fun t' =>
      t'.session_id = t.session_id && t'.seq = t.seq) = true
  · simp only [hseq, if_true] at h
    cases h
  simp only [hseq, Bool.false_eq_true, if_false] at h
  obtain ⟨-, rfl⟩ := Prod.mk.inj (Except.ok.inj h)
  refine ⟨fun k t' ht' heq => hid ?_, rfl⟩
  rw [List.any_eq_true]
  have hmem := Std.ExtTreeMap.mem_toList_iff_getElem?_eq_some.mpr ht'
  exact ⟨t', List.mem_map_of_mem hmem, decide_eq_true heq⟩

/-! ## Calls -/

theorem resolve_effect {cfg : Config} {p : ResolveParams} {now : Int} {ulid : String}
    {r : Except String (String × Bool)} (h : (resolve cfg p now ulid fault).exec s = (r, s')) :
    ∃ ev, Effect s ev s' ∧
      ev.Answers (.resolve cfg p now ulid) (r.map fun r => .resolved r.1 r.2) ∧
        Rows s (.resolve cfg p now ulid) (r.map fun r => .resolved r.1 r.2) s'.sessions := by
  unfold resolve at h
  by_cases hkind : p.kind ∉ kinds
  · simp only [hkind, not_false_eq_true, if_true] at h
    obtain ⟨rfl, rfl⟩ := Prod.mk.inj h
    exact ⟨_, .nothing, .failed, .failed⟩
  simp only [hkind, if_false] at h
  by_cases hdev : trim p.device = ""
  · simp only [hdev, if_true] at h
    obtain ⟨rfl, rfl⟩ := Prod.mk.inj h
    exact ⟨_, .nothing, .failed, .failed⟩
  simp only [hdev, if_false] at h
  rcases Db.transaction_cases h with ⟨rfl, e, rfl⟩ | ⟨a, rfl, hbody⟩
  · exact ⟨_, .nothing, .failed, .failed⟩
  rw [Tx.exec_bind, Tx.exec_get] at hbody
  cases hfind : findSession cfg p now s with
  | some id =>
    simp only [hfind, Tx.exec_pure] at hbody
    obtain ⟨rfl, rfl⟩ := Prod.mk.inj (Except.ok.inj hbody)
    exact ⟨_, .nothing, .found, .found⟩
  | none =>
    simp only [hfind, Tx.exec_bind] at hbody
    cases hnew : (newSession p now ulid).exec s with
    | error e => rw [hnew] at hbody; cases hbody
    | ok a =>
      obtain ⟨id, s1⟩ := a
      rw [hnew] at hbody
      obtain ⟨rfl, rfl⟩ := Prod.mk.inj (Except.ok.inj hbody)
      obtain ⟨rfl, heff, hrows⟩ := exec_newSession hnew
      exact ⟨_, heff, .created, hrows cfg⟩

theorem append_effect {cfg : Config} {p : AppendParams} {now : Int} {ulid : String}
    {r : Except String Appended} (h : (append cfg p now ulid fault).exec s = (r, s')) :
    ∃ ev, Effect s ev s' ∧ ev.Answers (.append cfg p now ulid) (r.map .appended) ∧
      Rows s (.append cfg p now ulid) (r.map .appended) s'.sessions := by
  unfold append at h
  by_cases hstatus : p.status ∉ statuses
  · simp only [hstatus, not_false_eq_true, if_true] at h
    obtain ⟨rfl, rfl⟩ := Prod.mk.inj h
    exact ⟨_, .nothing, .failed, .failed⟩
  simp only [hstatus, if_false] at h
  rw [Db.exec_bind, Db.exec_ofExcept] at h
  cases htrace : normalizeTrace p.tool_trace cfg with
  | error e =>
    rw [htrace] at h
    obtain ⟨rfl, rfl⟩ := Prod.mk.inj h
    exact ⟨_, .nothing, .failed, .failed⟩
  | ok trace =>
  rw [htrace] at h
  rcases Db.transaction_cases h with ⟨rfl, e, rfl⟩ | ⟨a, rfl, hbody⟩
  · exact ⟨_, .nothing, .failed, .failed⟩
  rw [Tx.exec_bind, Tx.exec_get] at hbody
  cases hlive : s.live p.session_id with
  | none => simp only [hlive, Tx.exec_throw] at hbody; cases hbody
  | some row =>
  simp only [hlive, Tx.exec_bind] at hbody
  cases hrev : nextRev.exec s with
  | error e => rw [hrev] at hbody; cases hbody
  | ok r =>
  obtain ⟨rev, s1⟩ := r
  obtain ⟨hlt, rfl, rfl⟩ := exec_nextRev hrev
  rw [hrev] at hbody
  simp only at hbody
  split at hbody
  · rename_i u s2 hins
    obtain ⟨hid, rfl⟩ := exec_insertTurn hins
    obtain ⟨rfl, rfl⟩ := Prod.mk.inj (Except.ok.inj hbody)
    simp only [Table.modify_eq_insert _ (live_eq_some.mp hlive).1]
    exact ⟨_, .appended hlt hlive rfl rfl hid _, .appended rfl, .appended hlive⟩
  · cases hbody

theorem update_effect {id : String} {title : Option String} {pinned : Option Bool}
    {r : Except String Nat} (h : (update id title pinned fault).exec s = (r, s')) :
    ∃ ev, Effect s ev s' ∧ ev.Answers (.update id title pinned) (r.map .updated) ∧
      Rows s (.update id title pinned) (r.map .updated) s'.sessions := by
  unfold update at h
  by_cases hnone : title = none ∧ pinned = none
  · simp only [hnone, and_self, if_true] at h
    obtain ⟨rfl, rfl⟩ := Prod.mk.inj h
    exact ⟨_, .nothing, .failed, .failed⟩
  simp only [hnone, if_false] at h
  rcases Db.transaction_cases h with ⟨rfl, e, rfl⟩ | ⟨a, rfl, hbody⟩
  · exact ⟨_, .nothing, .failed, .failed⟩
  rw [Tx.exec_bind, Tx.exec_get] at hbody
  cases hlive : s.live id with
  | none => simp only [hlive, Tx.exec_throw] at hbody; cases hbody
  | some row =>
  simp only [hlive, Tx.exec_bind] at hbody
  cases hrev : nextRev.exec s with
  | error e => rw [hrev] at hbody; cases hbody
  | ok r =>
  obtain ⟨rev, s1⟩ := r
  obtain ⟨hlt, rfl, rfl⟩ := exec_nextRev hrev
  rw [hrev] at hbody
  obtain ⟨rfl, rfl⟩ := Prod.mk.inj (Except.ok.inj hbody)
  simp only [Table.modify_eq_insert _ (live_eq_some.mp hlive).1]
  exact ⟨_, .edited hlt hlive (live_eq_some.mp hlive).2 rfl rfl, .updated, .updated hlive⟩

theorem delete_effect {id : String} {r : Except String Deleted}
    (h : (delete id fault).exec s = (r, s')) :
    ∃ ev, Effect s ev s' ∧ ev.Answers (.delete id) (r.map .deleted) ∧
      Rows s (.delete id) (r.map .deleted) s'.sessions := by
  unfold delete at h
  rcases Db.transaction_cases h with ⟨rfl, e, rfl⟩ | ⟨a, rfl, hbody⟩
  · exact ⟨_, .nothing, .failed, .failed⟩
  rw [Tx.exec_bind, Tx.exec_get] at hbody
  cases htomb : s.tombstones[id]? with
  | some rev =>
    simp only [htomb, Tx.exec_pure] at hbody
    obtain ⟨rfl, rfl⟩ := Prod.mk.inj (Except.ok.inj hbody)
    exact ⟨_, .nothing, .undeleted, .undeleted⟩
  | none =>
  simp only [htomb, Tx.exec_bind, Tx.exec_get] at hbody
  cases hlive : s.live id with
  | none =>
    simp only [hlive] at hbody
    obtain ⟨rfl, rfl⟩ := Prod.mk.inj (Except.ok.inj hbody)
    exact ⟨_, .nothing, .undeleted, .undeleted⟩
  | some row =>
  simp only [hlive, Tx.exec_bind] at hbody
  cases hrev : nextRev.exec s with
  | error e => rw [hrev] at hbody; cases hbody
  | ok r =>
  obtain ⟨rev, s1⟩ := r
  obtain ⟨hlt, rfl, rfl⟩ := exec_nextRev hrev
  rw [hrev] at hbody
  obtain ⟨rfl, rfl⟩ := Prod.mk.inj (Except.ok.inj hbody)
  simp only [Table.modify_eq_insert _ (live_eq_some.mp hlive).1]
  exact ⟨_, .deleted hlt hlive htomb rfl rfl _, .deleted, .deleted hlive⟩

theorem apply_effect {id : String} {seen_rev : Int} {result : Option Summary}
    {r : Except String Bool} (h : (apply id seen_rev result fault).exec s = (r, s')) :
    ∃ ev, Effect s ev s' ∧ ev.Answers (.apply id seen_rev result) (r.map .applied) ∧
      Rows s (.apply id seen_rev result) (r.map .applied) s'.sessions := by
  unfold apply at h
  rcases Db.transaction_cases h with ⟨rfl, e, rfl⟩ | ⟨a, rfl, hbody⟩
  · exact ⟨_, .nothing, .failed, .failed⟩
  rw [Tx.exec_bind, Tx.exec_get] at hbody
  cases hlive : s.live id with
  | none =>
    simp only [hlive, Tx.exec_pure] at hbody
    obtain ⟨rfl, rfl⟩ := Prod.mk.inj (Except.ok.inj hbody)
    exact ⟨_, .nothing, .unapplied, .unapplied hlive⟩
  | some row =>
  have hrow := (live_eq_some.mp hlive).1
  cases result with
  | none =>
    simp only [hlive, Tx.exec_bind, exec_updateSession] at hbody
    obtain ⟨rfl, rfl⟩ := Prod.mk.inj (Except.ok.inj hbody)
    rw [Table.modify_eq_insert _ hrow]
    exact ⟨_, .marked hlive _ _, .marked, .unusable hlive⟩
  | some result =>
    simp only [hlive, Tx.exec_bind] at hbody
    cases hrev : nextRev.exec s with
    | error e => rw [hrev] at hbody; cases hbody
    | ok r =>
    obtain ⟨rev, s1⟩ := r
    obtain ⟨hlt, rfl, rfl⟩ := exec_nextRev hrev
    rw [hrev] at hbody
    simp only [exec_updateSession, Table.modify_eq_insert _ hrow] at hbody
    obtain ⟨rfl, rfl⟩ := Prod.mk.inj (Except.ok.inj hbody)
    exact ⟨_, .edited hlt hlive (live_eq_some.mp hlive).2 rfl rfl, .summarized, .usable hlive⟩

theorem requeue_effect {session_id : String} {turn_ids : List String} {r : Except String Unit}
    (h : (requeue session_id turn_ids fault).exec s = (r, s')) :
    ∃ ev, Effect s ev s' ∧
      ev.Answers (.requeue session_id turn_ids) (r.map fun _ => .requeued) ∧
        Rows s (.requeue session_id turn_ids) (r.map fun _ => .requeued) s'.sessions := by
  unfold requeue at h
  rcases Db.transaction_cases h with ⟨rfl, e, rfl⟩ | ⟨a, rfl, hbody⟩
  · exact ⟨_, .nothing, .failed, .failed⟩
  rw [Tx.exec_modify] at hbody
  obtain ⟨rfl, rfl⟩ := Prod.mk.inj (Except.ok.inj hbody)
  exact ⟨_, .requeued, .requeued, .requeued⟩

theorem saveProgress_effect {job : Job} {done : List String} {now : Int} {backoff : Bool}
    {r : Except String Unit} (h : (saveProgress job done now backoff fault).exec s = (r, s')) :
    ∃ ev, Effect s ev s' ∧
      ev.Answers (.saveProgress job done now backoff) (r.map fun _ => .saved) ∧
        Rows s (.saveProgress job done now backoff) (r.map fun _ => .saved) s'.sessions := by
  unfold saveProgress at h
  rcases Db.transaction_cases h with ⟨rfl, e, rfl⟩ | ⟨a, rfl, hbody⟩
  · exact ⟨_, .nothing, .failed, .failed⟩
  rw [Tx.exec_modify] at hbody
  obtain ⟨rfl, rfl⟩ := Prod.mk.inj (Except.ok.inj hbody)
  cases hrow : s.cascade[job.session_id]? with
  | none => exact ⟨_, .nothing, .unsaved, .saved⟩
  | some row =>
    by_cases hgen : row.gen = job.gen
    · simp only [if_neg (not_not.mpr hgen)]
      exact ⟨_, .saved hrow hgen _ _, .saved, .saved⟩
    · simp only [if_pos (show row.gen ≠ job.gen from hgen)]
      exact ⟨_, .nothing, .unsaved, .saved⟩

theorem finish_effect {job : Job} {now : Int} {r : Except String Bool}
    (h : (finish job now fault).exec s = (r, s')) :
    ∃ ev, Effect s ev s' ∧ ev.Answers (.finish job now) (r.map .finished) ∧
      Rows s (.finish job now) (r.map .finished) s'.sessions := by
  unfold finish at h
  rcases Db.transaction_cases h with ⟨rfl, e, rfl⟩ | ⟨a, rfl, hbody⟩
  · exact ⟨_, .nothing, .failed, .failed⟩
  rw [Tx.exec_bind, Tx.exec_get] at hbody
  cases hrow : s.cascade[job.session_id]? with
  | none =>
    simp only [hrow, Tx.exec_pure] at hbody
    obtain ⟨rfl, rfl⟩ := Prod.mk.inj (Except.ok.inj hbody)
    exact ⟨_, .nothing, .unfinished, .unfinished⟩
  | some row =>
  by_cases hgen : row.gen = job.gen
  · simp only [hrow, hgen, ne_eq, not_true_eq_false, if_false] at hbody
    split at hbody
    · cases hbody
    · obtain ⟨rfl, rfl⟩ := Prod.mk.inj (Except.ok.inj hbody)
      refine ⟨_, .finished hrow hgen _, .finished, ?_⟩
      dsimp only
      split_ifs
      · exact .finished
      · exact .unfinished
  · simp only [hrow, hgen, ne_eq, not_false_eq_true, if_true] at hbody
    obtain ⟨rfl, rfl⟩ := Prod.mk.inj (Except.ok.inj hbody)
    exact ⟨_, .nothing, .unfinished, .unfinished⟩

/-- Whatever is called, with whatever arguments: the store changes by one of the events, the answer
    tells which, and the rows of the sessions are as the call leaves them. -/
theorem perform_cases {call : Call} {reply : Except String Reply}
    (h : (call.perform fault).exec s = (reply, s')) :
    ∃ ev, Effect s ev s' ∧ ev.Answers call reply ∧ Rows s call reply s'.sessions := by
  cases call <;> rw [Call.perform, Db.exec_bind_pure] at h <;> obtain ⟨rfl, rfl⟩ := Prod.mk.inj h
  case resolve => exact resolve_effect rfl
  case append => exact append_effect rfl
  case update => exact update_effect rfl
  case delete => exact delete_effect rfl
  case apply => exact apply_effect rfl
  case requeue => exact requeue_effect rfl
  case saveProgress => exact saveProgress_effect rfl
  case finish => exact finish_effect rfl

theorem perform_effect {call : Call} {reply : Except String Reply}
    (h : (call.perform fault).exec s = (reply, s')) :
    ∃ ev, Effect s ev s' ∧ ev.Answers call reply := by
  obtain ⟨ev, heff, hanswers, -⟩ := perform_cases h
  exact ⟨ev, heff, hanswers⟩

theorem perform_rows {call : Call} {reply : Except String Reply}
    (h : (call.perform fault).exec s = (reply, s')) : Rows s call reply s'.sessions := by
  obtain ⟨-, -, -, hrows⟩ := perform_cases h
  exact hrows

end Chats
