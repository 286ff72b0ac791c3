import Mathlib.Data.List.Perm.Basic
import VynkorPlugins.Automations.Rpc

/-!
# An answer reaches the call it is for
-/

namespace Automations

open Transition

variable {s s' : Serve}

/-- The requests whose answers have not been read yet, by the id that the answer comes under. -/
def Serve.outstanding (s : Serve) : List (String × Nat) :=
  s.kernel.map (fun r => (r.action_id, r.call)) ++ s.incoming.map fun r => (r.action_id, r.call)

/-- While the loop runs it holds exactly the replies of the requests that are not answered, under
    different ids. -/
structure ServeInv (s : Serve) : Prop where
  correlated : s.Correlated
  nodup : (s.outstanding.map Prod.fst).Nodup
  pending : s.running = true → ∀ (id : String) (call : Nat),
    s.pending[id]? = some call ↔ (id, call) ∈ s.outstanding

theorem getElem?_finish (s : Serve) (call : Nat) (o : Outcome) (call' : Nat) :
    (s.finish call o).outcome[call']? =
      if call = call' ∧ s.outcome[call]? = none then some o else s.outcome[call']? := by
  unfold Serve.finish
  cases h : s.outcome[call]? with
  | some o' =>
    have hmem : s.outcome.contains call = true := by
      rw [Std.ExtTreeMap.contains_eq_isSome_getElem?, h]
      rfl
    simp [hmem]
  | none =>
    have hmem : s.outcome.contains call = false := by
      rw [Std.ExtTreeMap.contains_eq_isSome_getElem?, h]
      rfl
    simp only [hmem, Bool.false_eq_true, if_false, Table.getElem?_insert_ite, and_true]

@[simp] theorem finish_running (call : Nat) (o : Outcome) : (s.finish call o).running = s.running := by
  unfold Serve.finish
  split_ifs <;> rfl

@[simp] theorem finish_pending (call : Nat) (o : Outcome) : (s.finish call o).pending = s.pending := by
  unfold Serve.finish
  split_ifs <;> rfl

@[simp] theorem finish_outstanding (call : Nat) (o : Outcome) :
    (s.finish call o).outstanding = s.outstanding := by
  unfold Serve.finish
  split_ifs <;> rfl

/-- A call may return its own answer, or time out, at any time; it may be aborted once the loop has
    ended. -/
theorem Serve.Correlated.finish (h : s.Correlated) {call : Nat} {o : Outcome}
    (hown : ∀ answer request, o = .answered answer request → request = call)
    (hkept : o = .aborted → s.running = false) : (s.finish call o).Correlated := by
  constructor
  · intro call' request answer h'
    rw [getElem?_finish] at h'
    split_ifs at h' with hcall
    · obtain rfl := hcall.1
      exact hown answer request (Option.some.inj h')
    · exact h.own call' request answer h'
  · intro hrun call' h'
    rw [finish_running] at hrun
    rw [getElem?_finish] at h'
    split_ifs at h' with hcall
    · rw [hkept (Option.some.inj h')] at hrun
      cases hrun
    · exact h.kept hrun call' h'

/-! ## One step -/

theorem serveInv_call (h : ServeInv s) (action : String) (params_json : ByteArray)
    (timeout_ms : UInt32) : ServeInv (s.call action params_json timeout_ms) := by
  unfold Serve.call
  split_ifs with hrun
  · exact ⟨⟨h.correlated.own, h.correlated.kept⟩, h.nodup, h.pending⟩
  · have hfalse : s.running = false := by simpa using hrun
    change ServeInv (Serve.finish { s with calls := s.calls + 1 } s.calls .aborted)
    constructor
    · have hcorr : ({ s with calls := s.calls + 1 } : Serve).Correlated :=
        ⟨h.correlated.own, h.correlated.kept⟩
      refine hcorr.finish ?_ fun _ => hfalse
      intro answer request heq
      cases heq
    · rw [finish_outstanding]
      exact h.nodup
    · rw [finish_running, finish_pending, finish_outstanding]
      exact h.pending

theorem serveInv_send {unix_millis : Nat} (h : ServeInv s)
    (hfresh : s.pending[actionId unix_millis]? = none) (hstep : s.send unix_millis = some s') :
    ServeInv s' := by
  unfold Serve.send at hstep
  split at hstep
  · rename_i c queue hrun hqueue
    simp only [hfresh] at hstep
    obtain rfl := Option.some.inj hstep
    have hnot : ∀ call, (actionId unix_millis, call) ∉ s.outstanding := by
      intro call hmem
      rw [(h.pending hrun _ call).mpr hmem] at hfresh
      cases hfresh
    -- the new request comes last of those in the kernel
    have hperm (req : ActionRequest) : (s.outstanding ++ [(req.action_id, req.call)]).Perm
        ({ s with kernel := s.kernel ++ [req] } : Serve).outstanding := by
      simp only [Serve.outstanding, List.map_append, List.append_assoc]
      exact List.perm_append_comm.append_left _
    refine ⟨⟨h.correlated.own, h.correlated.kept⟩, ?_, fun _ id call => ?_⟩
    · refine ((hperm _).map Prod.fst).nodup_iff.mp ?_
      rw [List.map_append, List.nodup_append]
      refine ⟨h.nodup, by simp, fun id hid id' hid' => ?_⟩
      obtain ⟨⟨id, call⟩, hmem, rfl⟩ := List.mem_map.mp hid
      rw [List.mem_singleton.mp hid']
      rintro rfl
      exact hnot call hmem
    · refine Iff.trans ?_ (hperm _).mem_iff
      rw [Table.getElem?_insert_ite, List.mem_append, List.mem_singleton, Prod.mk.injEq]
      by_cases hid : actionId unix_millis = id
      · subst hid
        simp [hnot, eq_comm]
      · simp [hid, Ne.symm hid, h.pending hrun]
  · cases hstep

theorem serveInv_answer {i : Nat} {answer : Answer} (h : ServeInv s)
    (hstep : s.answer i answer = some s') : ServeInv s' := by
  unfold Serve.answer at hstep
  obtain ⟨req, hreq, rfl⟩ := Option.map_eq_some_iff.mp hstep
  -- the request moves from the kernel to the end of the answers
  set resp : ActionResponse := { call := req.call, action_id := req.action_id, answer } with hresp
  have hperm : s.outstanding.Perm ({ s with
      kernel := s.kernel.eraseIdx i
      incoming := s.incoming ++ [resp] } : Serve).outstanding := by
    obtain ⟨hlt, hget⟩ := List.getElem?_eq_some_iff.mp hreq
    have hfirst := (List.getElem_cons_eraseIdx_perm hlt).symm.map
      fun r : ActionRequest => (r.action_id, r.call)
    simp only [Serve.outstanding, List.map_append, ← List.append_assoc]
    refine (hfirst.append_right _).trans ?_
    rw [hget, List.map_cons, List.cons_append]
    exact (List.perm_append_singleton _ _).symm
  refine ⟨⟨h.correlated.own, h.correlated.kept⟩, (hperm.map Prod.fst).nodup_iff.mp h.nodup, ?_⟩
  intro hrun id call
  exact (h.pending hrun id call).trans hperm.mem_iff

theorem serveInv_receive (h : ServeInv s) (hstep : s.receive = some s') : ServeInv s' := by
  unfold Serve.receive at hstep
  split at hstep
  · rename_i resp incoming hrun hincoming
    let rest : Serve := { s with incoming, pending := s.pending.erase resp.action_id }
    have hperm : s.outstanding.Perm ((resp.action_id, resp.call) :: rest.outstanding) := by
      rw [Serve.outstanding, hincoming, List.map_cons]
      exact List.perm_middle
    have hnodup := (hperm.map Prod.fst).nodup_iff.mp h.nodup
    rw [List.map_cons, List.nodup_cons] at hnodup
    have hinv : ServeInv rest := by
      refine ⟨⟨h.correlated.own, h.correlated.kept⟩, hnodup.2, fun _ id call => ?_⟩
      change (s.pending.erase resp.action_id)[id]? = some call ↔ (id, call) ∈ rest.outstanding
      rw [Table.getElem?_erase_ite]
      by_cases hid : resp.action_id = id
      · subst hid
        have hnot : (resp.action_id, call) ∉ rest.outstanding := fun hmem =>
          hnodup.1 (List.mem_map.mpr ⟨_, hmem, rfl⟩)
        simpa using hnot
      · rw [if_neg hid, h.pending hrun, hperm.mem_iff, List.mem_cons, Prod.mk.injEq]
        simp [Ne.symm hid]
    have hwaiter : s.pending[resp.action_id]? = some resp.call :=
      (h.pending hrun _ _).mpr (hperm.mem_iff.mpr List.mem_cons_self)
    simp only [hwaiter] at hstep
    obtain rfl := Option.some.inj hstep
    constructor
    · refine hinv.correlated.finish ?_ fun heq => nomatch heq
      intro answer request heq
      exact (Outcome.answered.inj heq).2.symm
    · rw [finish_outstanding]
      exact hinv.nodup
    · rw [finish_running, finish_pending, finish_outstanding]
      exact hinv.pending
  · cases hstep

theorem serveInv_timeout {call : Nat} (h : ServeInv s) (hstep : s.timeout call = some s') :
    ServeInv s' := by
  unfold Serve.timeout at hstep
  split_ifs at hstep
  obtain rfl := Option.some.inj hstep
  constructor
  · refine h.correlated.finish ?_ fun heq => nomatch heq
    intro answer request heq
    cases heq
  · rw [finish_outstanding]
    exact h.nodup
  · rw [finish_running, finish_pending, finish_outstanding]
    exact h.pending

/-- Once the loop has ended, any calls may be aborted. -/
theorem serveInv_dropped (calls : List Nat) (h : ServeInv s) (hrun : s.running = false) :
    ServeInv (calls.foldl (fun s call => s.finish call .aborted) s) := by
  induction calls generalizing s with
  | nil => exact h
  | cons call calls ih =>
    rw [List.foldl_cons]
    refine ih ⟨?_, ?_, ?_⟩ (by rw [finish_running, hrun])
    · refine h.correlated.finish ?_ fun _ => hrun
      intro answer request heq
      cases heq
    · rw [finish_outstanding]
      exact h.nodup
    · rw [finish_running, hrun]
      exact fun h => nomatch h

theorem serveInv_shutdown (h : ServeInv s) : ServeInv s.shutdown := by
  refine serveInv_dropped _ ⟨⟨h.correlated.own, ?_⟩, h.nodup, ?_⟩ rfl
  · exact fun h => nomatch h
  · exact fun h => nomatch h

theorem serveInv_step {l : ServeLabel} (h : ServeInv s) (hfresh : FreshId s l)
    (hstep : s.step l = some s') : ServeInv s' := by
  cases l with
  | call action params_json timeout_ms =>
    obtain rfl := Option.some.inj hstep
    exact serveInv_call h action params_json timeout_ms
  | send unix_millis => exact serveInv_send h hfresh hstep
  | answer i answer => exact serveInv_answer h hstep
  | receive => exact serveInv_receive h hstep
  | timeout call => exact serveInv_timeout h hstep
  | shutdown =>
    obtain rfl := Option.some.inj hstep
    exact serveInv_shutdown h

/-! ## Runs -/

/-- Every answer reaches the call it is for, and no call is aborted while the loop runs, if the loop
    never takes a call at a reading of the clock under which a request is waiting for its answer. -/
theorem answers_correlated {trace : List ServeLabel}
    (hrun : Run (Where FreshId fun s l s' => s.step l = some s') .empty trace s) : s.Correlated := by
  have hinv : ServeInv s := by
    refine hrun.invariant_state ?_ fun s l s' hs h => serveInv_step hs h.2 h.1
    refine ⟨⟨?_, ?_⟩, List.nodup_nil, ?_⟩
    · simp [Serve.empty]
    · simp [Serve.empty]
    · simp [Serve.empty, Serve.outstanding]
  exact hinv.correlated

/-- Two calls of which the first is answered: `readings` are those of the loop when it takes them. -/
def twoCalls (readings : Nat × Nat) : List ServeLabel :=
  [.call "db_get" .empty 5000, .call "notify_send" .empty 30000, .send readings.1, .send readings.2,
    .answer 0 { ok := true, data_json := Json.toVec .null, error := "" }, .receive]

theorem answers_correlated_sample : ∃ s,
    runWhere FreshId Serve.step .empty (twoCalls (1000, 1001)) = some s ∧ s.Correlated := by
  have hsome : (runWhere FreshId Serve.step .empty (twoCalls (1000, 1001))).isSome = true := by
    decide
  obtain ⟨s, hs⟩ := Option.isSome_iff_exists.mp hsome
  exact ⟨s, hs, answers_correlated (run_of_runWhere .start hs)⟩

/-- Both calls are taken within one millisecond. -/
def sameMillisecond : Serve :=
  (runWhere (fun _ _ => True) Serve.step .empty (twoCalls (1000, 1000))).get (by decide)

/-- The first call is aborted while the loop runs, and the second one returns the answer to the request
    of the first. -/
theorem same_millisecond_mixes_answers :
    sameMillisecond.running = true ∧
    (sameMillisecond.outcome[(0 : Nat)]? matches some Outcome.aborted) = true ∧
    (sameMillisecond.outcome[(1 : Nat)]? matches some (Outcome.answered _ 0)) = true := by
  decide

end Automations
