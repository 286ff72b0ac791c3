import VynkorPlugins.Network.Inflight

/-!
# Proofs: the cap on requests in flight

The counter of a caller is always the number of slots its requests hold. The cap is kept as long as
no task takes a slot that another one took since its check.
-/

namespace Network

open Transition

variable {caller caller' : String}

namespace Inflight

variable {s : Inflight}

@[simp] theorem increment_limit (s : Inflight) (caller : String) : (s.increment caller).limit = s.limit := by
  rw [increment]
  split_ifs <;> rfl

@[simp] theorem release_limit (s : Inflight) (caller : String) : (s.release caller).limit = s.limit := by
  rw [release]
  split_ifs
  · rfl
  · split
    · split_ifs <;> rfl
    · rfl

/-- The counters are those of the slots that are held, and no counter stays at zero. -/
def Counts (s : Inflight) (held : String → Nat) : Prop :=
  ∀ caller, s.active[caller]? = if held caller = 0 then none else some (held caller)

variable {held held' : String → Nat}

theorem Counts.getD (h : s.Counts held) (caller : String) : s.active[caller]?.getD 0 = held caller := by
  rw [h caller]
  split_ifs with h0
  · exact h0.symm
  · rfl

theorem Counts.empty (h : s.Counts held) (hheld : ∀ caller, held caller = 0) : s.active = ∅ := by
  refine Std.ExtTreeMap.ext_getElem? fun caller => ?_
  rw [h caller, if_pos (hheld caller), Std.ExtTreeMap.getElem?_empty]

/-- What the counters are after one of them changed. -/
theorem Counts.update (h : s.Counts held) (caller : String) {active : Table String Nat}
    (hother : ∀ c, c ≠ caller → held' c = held c ∧ active[c]? = s.active[c]?)
    (hcaller : active[caller]? = if held' caller = 0 then none else some (held' caller)) :
    Counts { s with active } held' := by
  intro c
  by_cases hc : c = caller
  · rw [hc]
    exact hcaller
  · obtain ⟨hheld, hactive⟩ := hother c hc
    rw [hheld]
    exact hactive.trans (h c)

theorem Counts.increment (h : s.Counts held) (hlimit : 0 < s.limit)
    (hheld : ∀ c, held' c = held c + if c = caller then 1 else 0) :
    (s.increment caller).Counts held' := by
  rw [Inflight.increment, if_pos hlimit, h.getD caller]
  refine h.update caller (fun c hc => ?_) ?_
  · rw [hheld c, if_neg hc, Table.getElem?_insert_ite, if_neg (Ne.symm hc)]
    exact ⟨rfl, rfl⟩
  · rw [Table.getElem?_insert_ite, if_pos rfl, hheld caller, if_pos rfl, if_neg (Nat.succ_ne_zero _)]

theorem Counts.release (h : s.Counts held) (hlimit : 0 < s.limit)
    (hheld : ∀ c, held c = held' c + if c = caller then 1 else 0) :
    (s.release caller).Counts held' := by
  have hne : s.limit ≠ 0 := by omega
  have hone := hheld caller
  rw [if_pos rfl] at hone
  rw [Inflight.release, if_neg hne, h caller, if_neg (by omega)]
  simp only [hone, Nat.add_sub_cancel]
  -- The last slot of a caller takes its counter away.
  by_cases h0 : held' caller = 0
  · rw [if_pos h0]
    refine h.update caller (fun c hc => ?_) ?_
    · rw [hheld c, if_neg hc, Table.getElem?_erase_ite, if_neg (Ne.symm hc)]
      exact ⟨rfl, rfl⟩
    · rw [Table.getElem?_erase_ite, if_pos rfl, if_pos h0]
  · rw [if_neg h0]
    refine h.update caller (fun c hc => ?_) ?_
    · rw [hheld c, if_neg hc, Table.getElem?_insert_ite, if_neg (Ne.symm hc)]
      exact ⟨rfl, rfl⟩
    · rw [Table.getElem?_insert_ite, if_pos rfl, if_neg h0]

end Inflight

namespace InflightServer

variable {s s' : InflightServer} {l : InflightLabel} {i : Nat} {t t' : RequestTask}

/-! ## Slots -/

theorem held_append (s : InflightServer) (ht : t.holds caller = false) :
    held { s with tasks := s.tasks ++ [t] } caller = s.held caller := by
  simp [held, ht]

/-- A task goes on: its slot is freed or taken. -/
theorem held_set (ht : s.tasks[i]? = some t) (t' : RequestTask) (inflight : Inflight) (caller : String) :
    held { inflight, tasks := s.tasks.set i t' } caller + (if t.holds caller then 1 else 0)
      = s.held caller + if t'.holds caller then 1 else 0 := by
  obtain ⟨hi, hget⟩ := List.getElem?_eq_some_iff.mp ht
  have hle : (if t.holds caller then 1 else 0) ≤ s.tasks.countP (·.holds caller) := by
    split_ifs with hholds
    · exact List.countP_pos_iff.mpr ⟨t, List.mem_of_getElem? ht, hholds⟩
    · exact Nat.zero_le _
  simp only [held]
  rw [List.countP_set hi, hget]
  omega

theorem onAction_not_holds (s : InflightServer) (req : ActionRequest) (caller : String) :
    (s.onAction req).holds caller = false := by
  rw [onAction]
  split_ifs
  · rfl
  · rfl
  · split <;> rfl

theorem receive_tasks (s : InflightServer) (req : ActionRequest) :
    ∃ t, s.receive req = { s with tasks := s.tasks ++ [t] } ∧ ∀ caller, t.holds caller = false := by
  rw [receive]
  split
  · exact ⟨_, rfl, fun _ => rfl⟩
  · exact ⟨_, rfl, fun _ => rfl⟩

/-- What a step can do: take a slot, free one, or leave all of them alone. -/
theorem step_cases (h : s.step l = some s') :
    (∃ i caller, l = .increment i ∧ s.tasks[i]? = some (.checked caller) ∧
      s'.inflight = s.inflight.increment caller ∧
      ∀ c, s'.held c = s.held c + if c = caller then 1 else 0) ∨
    (∃ i caller outcome, l = .finish i outcome ∧ s'.inflight = s.inflight.release caller ∧
      ∀ c, s.held c = s'.held c + if c = caller then 1 else 0) ∨
    (∀ i, l ≠ .increment i) ∧ s'.inflight = s.inflight ∧ ∀ c, s'.held c = s.held c := by
  cases l with
  | receive req =>
    obtain rfl := Option.some.inj h
    obtain ⟨t, heq, ht⟩ := s.receive_tasks req
    rw [heq]
    exact .inr (.inr ⟨nofun, rfl, fun c => s.held_append (ht c)⟩)
  | start i =>
    simp only [step] at h
    split at h
    · rename_i req htask
      obtain rfl := Option.some.inj h
      refine .inr (.inr ⟨nofun, rfl, fun c => ?_⟩)
      have hheld := held_set htask (s.onAction req) s.inflight c
      rw [s.onAction_not_holds req c] at hheld
      exact hheld
    · cases h
  | increment i =>
    simp only [step] at h
    split at h
    · rename_i caller htask
      obtain rfl := Option.some.inj h
      refine .inl ⟨i, caller, rfl, htask, rfl, fun c => ?_⟩
      have hheld := held_set htask (.holding caller) (s.inflight.increment caller) c
      simpa [RequestTask.holds, eq_comm] using hheld
    · cases h
  | finish i outcome =>
    simp only [step] at h
    split at h
    · rename_i caller htask
      obtain rfl := Option.some.inj h
      refine .inr (.inl ⟨i, caller, outcome, rfl, rfl, fun c => ?_⟩)
      have hheld := held_set htask (.ended outcome) (s.inflight.release caller) c
      simpa [RequestTask.holds, eq_comm] using hheld.symm
    · cases h

/-! ## Runs -/

/-- The server has a limit, and its counters are exact. -/
structure Exact (limit : Nat) (s : InflightServer) : Prop where
  limit : s.inflight.limit = limit
  counts : s.inflight.Counts s.held

variable {limit : Nat} {trace : List InflightLabel}

theorem exact_start (limit : Nat) : Exact limit { inflight := { limit } } := by
  refine ⟨rfl, fun caller => ?_⟩
  simp [held]

theorem Exact.step (h : Exact limit s) (hlimit : 0 < limit) (hs : s.step l = some s') :
    Exact limit s' := by
  have hpos : 0 < s.inflight.limit := h.limit.symm ▸ hlimit
  rcases step_cases hs with ⟨i, caller, -, -, hin, hheld⟩ | ⟨i, caller, o, -, hin, hheld⟩ | ⟨-, hin, hheld⟩
  · refine ⟨by rw [hin, Inflight.increment_limit, h.limit], ?_⟩
    rw [hin]
    exact h.counts.increment hpos hheld
  · refine ⟨by rw [hin, Inflight.release_limit, h.limit], ?_⟩
    rw [hin]
    exact h.counts.release hpos hheld
  · refine ⟨by rw [hin, h.limit], ?_⟩
    rw [hin, funext hheld]
    exact h.counts

/-- No caller holds more slots than the limit. -/
def Capped (limit : Nat) (s : InflightServer) : Prop :=
  ∀ caller, s.held caller ≤ limit

/-- A step keeps the cap exactly if the task that takes a slot finds its caller still below it. -/
theorem capped_step_iff (h : Exact limit s) (hcap : Capped limit s) (hs : s.step l = some s') :
    Capped limit s' ↔ s.stillBelow l := by
  rcases step_cases hs with ⟨i, caller, rfl, htask, -, hheld⟩ | ⟨i, caller, o, rfl, -, hheld⟩ | ⟨hne, -, hheld⟩
  · simp only [stillBelow, htask, decide_eq_true_eq]
    rw [h.counts.getD caller, h.limit]
    constructor
    · intro hcap'
      have hle := hcap' caller
      rw [hheld caller, if_pos rfl] at hle
      exact hle
    · intro hlt c
      rw [hheld c]
      split_ifs with hc
      · rw [hc]
        exact hlt
      · exact hcap c
  · refine iff_of_true (fun c => ?_) rfl
    have hle := hcap c
    rw [hheld c] at hle
    omega
  · refine iff_of_true (fun c => (hheld c).symm ▸ hcap c) ?_
    cases l with
    | increment i => exact (hne i rfl).elim
    | receive | start | finish => rfl

/-- The runs on which the cap is kept all along. -/
theorem capped_run_iff (hlimit : 0 < limit) :
    Run (fun s l s' => s.step l = some s' ∧ Capped limit s') { inflight := { limit } } trace s ↔
      Run (Where (fun s l => s.stillBelow l) fun s l s' => s.step l = some s')
        { inflight := { limit } } trace s := by
  refine run_where_iff (I := Exact limit) (exact_start limit) (fun caller => ?_) ?_ ?_
  · exact Nat.zero_le limit
  · exact fun s l s' h hs => h.step hlimit hs
  · exact fun s l s' h hcap hs => capped_step_iff h hcap hs

theorem Run.exact (h : Run (fun s l s' => s.step l = some s') { inflight := { limit } } trace s)
    (hlimit : 0 < limit) : Exact limit s :=
  h.invariant_state (exact_start limit) fun _ _ _ hI hs => hI.step hlimit hs

theorem held_eq_zero_of_ended (h : s.tasks.all RequestTask.isEnded) (caller : String) :
    s.held caller = 0 := by
  refine List.countP_eq_zero.mpr fun t ht => ?_
  have hended := List.all_eq_true.mp h t ht
  cases t with
  | ended => exact Bool.false_ne_true
  | spawned | checked | holding => cases hended

/-- In a run in which each task that takes a slot finds its caller still below the limit, no caller
    ever holds more slots than the limit, each counter is the number of slots held, and no counter is
    left when all tasks have ended. -/
theorem inflight_cap_exact (limit : Nat) (hlimit : 0 < limit)
    (h : Run (Where (fun s l => s.stillBelow l) fun s l s' => s.step l = some s')
      { inflight := { limit } } trace s) :
    (∀ caller, s.held caller ≤ limit) ∧
      (∀ caller, s.inflight.active[caller]?.getD 0 = s.held caller) ∧
      (s.tasks.all RequestTask.isEnded → s.inflight.active = ∅) := by
  have hexact := Run.exact (h.mono fun _ _ _ hs => hs.1) hlimit
  have hcapped : Capped limit s := by
    cases (capped_run_iff hlimit).mpr h with
    | start => exact fun caller => Nat.zero_le limit
    | step _ hs => exact hs.2
  refine ⟨hcapped, hexact.counts.getD, fun hended => ?_⟩
  exact hexact.counts.empty (held_eq_zero_of_ended hended)

def request : ActionRequest := { caller_plugin_id := "agent", action := "http_request" }

/-- Two requests of one caller under a limit of one, the second after the first. -/
theorem inflight_cap_exact_sample :
    ∃ s : InflightServer, (∀ caller, s.held caller ≤ 1) ∧
      (∀ caller, s.inflight.active[caller]?.getD 0 = s.held caller) ∧
      (s.tasks.all RequestTask.isEnded → s.inflight.active = ∅) ∧ s.tasks.length = 2 := by
  have hsome : ((runWhere (fun s l => InflightServer.stillBelow s l) InflightServer.step
      { inflight := { limit := 1 } } [.receive request, .start 0, .increment 0, .finish 0 .unwound,
        .receive request, .start 1, .increment 1, .finish 1 .ok]).any fun s => s.tasks.length = 2)
        = true := by
    decide
  obtain ⟨s, hs, hlength⟩ := (Option.any_eq_true _ _).mp hsome
  obtain ⟨hcap, hcounts, hempty⟩ := inflight_cap_exact 1 Nat.one_pos (run_of_runWhere .start hs)
  exact ⟨s, hcap, hcounts, hempty, of_decide_eq_true hlength⟩

/-- Two tasks of one caller check before either of them takes its slot, so that a caller holds two
    slots under a limit of one. -/
theorem two_checks_pass_the_cap :
    ¬ ∀ (limit : Nat) (trace : List InflightLabel) (s : InflightServer), 0 < limit →
      Run (fun s l s' => s.step l = some s') { inflight := { limit } } trace s →
      ∀ caller, s.held caller ≤ limit := by
  intro hall
  have hsome : ((runWhere (fun _ _ => True) InflightServer.step { inflight := { limit := 1 } }
      [.receive request, .receive request, .start 0, .start 1, .increment 0, .increment 1]).any
        fun s => 1 < s.held "agent") = true := by
    decide
  obtain ⟨s, hs, hheld⟩ := (Option.any_eq_true _ _).mp hsome
  have hle := hall 1 _ s Nat.one_pos ((run_of_runWhere .start hs).mono fun _ _ _ hl => hl.1) "agent"
  have hlt := of_decide_eq_true hheld
  omega

end InflightServer

end Network
