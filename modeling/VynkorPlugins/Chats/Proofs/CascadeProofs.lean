import Mathlib.Data.List.Dedup
import VynkorPlugins.Chats.Proofs.StoreProofs
import VynkorPlugins.Chats.Worker

/-!
# A cascade is closed after all its steps
-/

namespace Chats

open Async Transition

/-! ## What the lane asks for -/

/-- The jobs of the current pass that are not written back yet, and the calls answered `Ok` in it. -/
structure PassView where
  jobs : List Job := []
  answered : List (String × Json) := []

/-- Each key was done when the job was read, or its step was answered since. -/
def Progress (job : Job) (v : PassView) (keys : List String) : Prop :=
  ∀ key ∈ keys, key ∈ job.done ∨
    ∃ step ∈ stepsOf job, step.key = key ∧ (step.action, step.params) ∈ v.answered

def PassView.next (v : PassView) : (e : Await) → e.Answer → PassView
  | .dueJobs _, r =>
    match (r : Except String (List Job)) with
    | .ok jobs => { jobs, answered := [] }
    | .error _ => {}
  | .saveProgress job _ _ _, _ => { v with jobs := v.jobs.erase job }
  | .finish job _, _ => { v with jobs := v.jobs.erase job }
  | .rpc action params _, r =>
    match (r : Except String Json) with
    | .ok _ => { v with answered := (action, params) :: v.answered }
    | .error _ => v
  | _, _ => v

/-- The cleanup lane writes back a job of its pass only, with the progress it has made; it finishes a
    job when all its steps are done. -/
def cleanupProtocol : Protocol Await Await.Answer PassView where
  allowed v e := match e with
    | .saveProgress job keys _ _ => job ∈ v.jobs ∧ Progress job v keys
    | .finish job _ => job ∈ v.jobs ∧
      ∃ keys, Progress job v keys ∧ ∀ step ∈ stepsOf job, step.key ∈ keys
    | .dueJobs _ | .rpc .. | .overBudget => True
    | _ => False
  next v e r v' := v' = v.next e r

theorem Progress.mono {job : Job} {v v' : PassView} {keys : List String} (h : Progress job v keys)
    (hle : ∀ a ∈ v.answered, a ∈ v'.answered) : Progress job v' keys := by
  intro key hkey
  refine (h key hkey).imp_right ?_
  rintro ⟨step, hstep, heq, ha⟩
  exact ⟨step, hstep, heq, hle _ ha⟩

theorem obeys_overBudget {v : PassView} {calls : Nat} :
    Obeys cleanupProtocol (fun v' _ => v' = v) v (Lane.overBudget calls) := by
  unfold Lane.overBudget
  by_cases h : calls > 0
  · rw [if_pos h]
    exact ⟨trivial, fun r v' h => h⟩
  · rw [if_neg h]
    exact rfl

theorem obeys_await {v : PassView} {e : Await} (h : cleanupProtocol.allowed v e) :
    Obeys cleanupProtocol (fun v' r => v' = v.next e r) v (Lane.await e) :=
  ⟨h, fun _ _ hnext => hnext⟩

theorem obeys_call {v : PassView} (action : String) (params : Json) (timeout_ms : Nat) :
    Obeys cleanupProtocol (fun v' r => v' = v.next (.rpc action params timeout_ms) r) v
      (Lane.call action params timeout_ms) :=
  obeys_await trivial

theorem obeys_dueJobs {v : PassView} (now : Int) :
    Obeys cleanupProtocol (fun v' r => v' = v.next (.dueJobs now) r) v (Lane.dueJobs now) :=
  obeys_await trivial

theorem obeys_saveProgress {v : PassView} {job : Job} {keys : List String} (hjob : job ∈ v.jobs)
    (h : Progress job v keys) (now : Int) (backoff : Bool) :
    Obeys cleanupProtocol (fun v' _ => v' = { v with jobs := v.jobs.erase job }) v
      (Lane.saveProgress job keys now backoff) :=
  ⟨⟨hjob, h⟩, fun _ _ hnext => hnext⟩

theorem obeys_finish {v : PassView} {job : Job} {keys : List String} (hjob : job ∈ v.jobs)
    (h : Progress job v keys) (hall : ∀ step ∈ stepsOf job, step.key ∈ keys) (now : Int) :
    Obeys cleanupProtocol (fun v' _ => v' = { v with jobs := v.jobs.erase job }) v
      (Lane.finish job now) :=
  ⟨⟨hjob, keys, h, hall⟩, fun _ _ hnext => hnext⟩

/-- What the steps of a job leave: the progress made, and either a step left open or every step. -/
structure StepsDone (job : Job) (v : PassView) (steps : List Step) (state : JobState) (v' : PassView)
    (state' : JobState) : Prop where
  jobs : v'.jobs = v.jobs
  progress : Progress job v' state'.done
  kept : ∀ key ∈ state.done, key ∈ state'.done
  complete : state'.failed = false → state'.out_of_budget = false →
    state.failed = false ∧ state.out_of_budget = false ∧ ∀ step ∈ steps, step.key ∈ state'.done

theorem obeys_runSteps {job : Job} {steps : List Step} (hsub : ∀ step ∈ steps, step ∈ stepsOf job)
    {v : PassView} {pass : PassState} {state : JobState} (hv : Progress job v state.done) :
    Obeys cleanupProtocol (fun v' r => StepsDone job v steps state v' r.2) v
      (runSteps steps pass state) := by
  induction steps generalizing v pass state with
  | nil => exact ⟨rfl, hv, fun key h => h, fun hf hb => ⟨hf, hb, fun step h => nomatch h⟩⟩
  | cons step steps ih =>
    have hsub' : ∀ step' ∈ steps, step' ∈ stepsOf job := fun step' h =>
      hsub step' (List.mem_cons_of_mem _ h)
    unfold runSteps
    split_ifs with hdone hdown
    · refine (ih hsub' hv).mono fun v' r h => ?_
      refine ⟨h.jobs, h.progress, h.kept, fun hf hb => ?_⟩
      obtain ⟨hf', hb', hall⟩ := h.complete hf hb
      exact ⟨hf', hb', List.forall_mem_cons.mpr ⟨h.kept _ hdone, hall⟩⟩
    · refine (@ih hsub' v _ { state with failed := true } hv).mono fun v' r h => ?_
      refine ⟨h.jobs, h.progress, h.kept, fun hf hb => ?_⟩
      cases (h.complete hf hb).1
    · refine obeys_overBudget.bind ?_
      rintro v' late rfl
      split_ifs with hover
      · refine (@ih hsub' _ _ { state with out_of_budget := true } hv).mono fun v' r h => ?_
        refine ⟨h.jobs, h.progress, h.kept, fun hf hb => ?_⟩
        cases (h.complete hf hb).2.1
      · refine (obeys_await (e := .rpc step.action step.params 30000) trivial).bind ?_
        rintro v'' r rfl
        have hstep := hsub step List.mem_cons_self
        cases r with
        | ok reply =>
          have hv' : Progress job (v'.next (.rpc step.action step.params 30000) (.ok reply))
              (step.key :: state.done) := by
            refine List.forall_mem_cons.mpr ⟨.inr ⟨step, hstep, rfl, List.mem_cons_self⟩, ?_⟩
            exact hv.mono fun a ha => List.mem_cons_of_mem _ ha
          refine (ih hsub' hv').mono fun w r h => ?_
          refine ⟨h.jobs, h.progress, fun key hkey => h.kept _ (List.mem_cons_of_mem _ hkey),
            fun hf hb => ?_⟩
          obtain ⟨hf', hb', hall⟩ := h.complete hf hb
          exact ⟨hf', hb', List.forall_mem_cons.mpr ⟨h.kept _ List.mem_cons_self, hall⟩⟩
        | error e =>
          refine (@ih hsub' v' _ { state with failed := true } hv).mono fun w r h => ?_
          refine ⟨h.jobs, h.progress, h.kept, fun hf hb => ?_⟩
          cases (h.complete hf hb).1

theorem obeys_runJobs {now : Int} {jobs : List Job} {v : PassView} (hv : v.jobs = jobs)
    (pass : PassState) (finished : Bool) :
    Obeys cleanupProtocol (fun _ _ => True) v (runJobs now jobs pass finished) := by
  induction jobs generalizing v pass finished with
  | nil => exact trivial
  | cons job jobs ih =>
    refine obeys_overBudget.bind ?_
    rintro v' late rfl
    split_ifs
    · exact trivial
    have hstart : Progress job v' job.done := fun key hkey => .inl hkey
    have hsteps := @obeys_runSteps job (stepsOf job) (fun step h => h) v' pass { done := job.done }
    refine (hsteps hstart).bind ?_
    rintro w ⟨pass', state⟩ h
    have hjobs : w.jobs = job :: jobs := h.jobs.trans hv
    have hmem : job ∈ w.jobs := by
      rw [hjobs]
      exact List.mem_cons_self
    have hrest : w.jobs.erase job = jobs := by rw [hjobs, List.erase_cons_head]
    dsimp only
    split_ifs with hopen
    · refine (obeys_saveProgress hmem h.progress now state.failed).bind ?_
      rintro w' r rfl
      exact ih hrest pass' finished
    · rw [Bool.or_eq_true, not_or, Bool.not_eq_true, Bool.not_eq_true] at hopen
      have hall := (h.complete hopen.1 hopen.2).2.2
      refine (obeys_finish hmem h.progress hall now).bind ?_
      rintro w' r rfl
      cases r with
      | ok ok => exact ih hrest pass' _
      | error e => exact ih hrest pass' _

theorem obeys_cascadePass (now : Int) (v : PassView) :
    Obeys cleanupProtocol (fun _ _ => True) v (cascadePass now) := by
  refine (obeys_dueJobs now).bind ?_
  rintro v' r rfl
  cases r with
  | ok jobs => exact obeys_runJobs rfl {} false
  | error e => exact trivial

theorem obeys_cleanupLane (nows : List Int) (v : PassView) :
    Obeys cleanupProtocol (fun _ _ => True) v (cleanupLane nows) := by
  induction nows generalizing v with
  | nil => exact trivial
  | cons now nows ih => exact (obeys_cascadePass now v).bind fun v' _ _ => ih v'

/-! ## The invariant -/

variable {s s' : Store} {v : PassView} {trace : List LaneLabel}

/-- What holds between the passes' own calls: a row of the cascade belongs to a deleted session; what
    it lists as done was answered since its last reset; and a job whose generation is still the one
    of its row is that row, and what the pass was answered it was answered since the reset. -/
structure CleanupInv (v : PassView) (trace : List LaneLabel) (s : Store) : Prop where
  wellFormed : s.WellFormed
  drawn : Drawn (drawn (otherCalls trace)) s
  queued : ∀ (id : String) (row : CascadeRow), s.cascade[id]? = some row →
    ∃ rev, s.tombstones[id]? = some rev
  done : ∀ (id : String) (row : CascadeRow), s.cascade[id]? = some row →
    ∀ step ∈ stepsOf (.ofRow id row), step.key ∈ row.done →
      (step.action, step.params) ∈ okSince id trace
  jobs_nodup : (v.jobs.map Job.session_id).Nodup
  jobs : ∀ job ∈ v.jobs, ∃ row, s.cascade[job.session_id]? = some row ∧ job.gen ≤ row.gen ∧
    (job.gen = row.gen → job = .ofRow job.session_id row ∧
      ∀ a ∈ v.answered, a ∈ okSince job.session_id trace)

/-- The step that a key stands for. -/
theorem step_of_key {job : Job} {step step' : Step} (h : step ∈ stepsOf job)
    (h' : step' ∈ stepsOf job) (hkey : step.key = step'.key) : step = step' := by
  have happend : ∀ {p x y : String}, p ++ x = p ++ y → x = y := by
    intro p x y h
    have := congrArg String.toList h
    rw [String.toList_append, String.toList_append] at this
    exact String.toList_inj.mp (List.append_cancel_left this)
  have hhead : ∀ {x y : String}, x.toList.head? ≠ y.toList.head? → x ≠ y := by
    rintro x y h rfl
    exact h rfl
  simp only [stepsOf, List.mem_append, List.mem_map, List.mem_singleton] at h h'
  rcases h with ((⟨t, -, rfl⟩ | rfl) | ⟨g, -, rfl⟩) | rfl <;>
    rcases h' with ((⟨t', -, rfl⟩ | rfl) | ⟨g', -, rfl⟩) | rfl
  all_goals first
    | rfl
    | rw [happend hkey]
    | exact absurd hkey (hhead (by simp [String.toList_append]))

/-- The progress of a job whose row has not been reset was made since the last reset. -/
theorem CleanupInv.progress {job : Job} {row : CascadeRow} {keys : List String}
    (hinv : CleanupInv v trace s) (hjob : job ∈ v.jobs) (hp : Progress job v keys)
    (hrow : s.cascade[job.session_id]? = some row) (hgen : row.gen = job.gen) :
    ∀ step ∈ stepsOf (.ofRow job.session_id row), step.key ∈ keys →
      (step.action, step.params) ∈ okSince job.session_id trace := by
  obtain ⟨row', hrow', -, hsame⟩ := hinv.jobs job hjob
  obtain rfl : row' = row := Option.some.inj (hrow'.symm.trans hrow)
  obtain ⟨heq, hanswered⟩ := hsame hgen.symm
  rw [← heq]
  intro step hstep hkey
  rcases hp _ hkey with hdone | ⟨step', hstep', hkey', ha⟩
  · refine hinv.done _ row' hrow step (heq ▸ hstep) ?_
    have hdedup : job.done = row'.done.dedup := congrArg Job.done heq
    rwa [hdedup, List.mem_dedup] at hdone
  · rw [step_of_key hstep hstep' hkey'.symm]
    exact hanswered _ ha

theorem okSince_act (id : String) {e : Await} {r : e.Answer} :
    okSince id (.act () e r :: trace) =
      (answeredOk (.act () e r)).toList ++ okSince id trace := rfl

theorem mem_okSince_act (id : String) {e : Await} {r : e.Answer} {a : String × Json}
    (h : a ∈ okSince id trace) : a ∈ okSince id (.act () e r :: trace) := by
  rw [okSince_act]
  exact List.mem_append_right _ h

theorem cleanupInv_dueJobs {now : Int} {r : Except String (List Job)} (hinv : CleanupInv v trace s)
    (hr : r = .ok (dueJobs now s) ∨ ∃ e, r = .error e) :
    CleanupInv (v.next (.dueJobs now) r) (.act () (.dueJobs now) r :: trace) s := by
  refine ⟨hinv.wellFormed, hinv.drawn, hinv.queued, fun id row hrow step hstep hdone =>
    mem_okSince_act id (hinv.done id row hrow step hstep hdone), ?_, ?_⟩
  · rcases hr with rfl | ⟨e, rfl⟩
    · change ((dueJobs now s).map Job.session_id).Nodup
      rw [dueJobs, List.map_map]
      refine List.Nodup.sublist ((List.take_sublist _ _).map Prod.fst) ?_
      exact ((List.perm_insertionSort _ _).map Prod.fst).nodup_iff.mpr (Table.nodup_selectWhere _ _)
    · exact List.nodup_nil
  · rcases hr with rfl | ⟨e, rfl⟩
    · intro job hjob
      obtain ⟨⟨id, row⟩, hmem, rfl⟩ := List.mem_map.mp hjob
      have hrow := (Table.mem_selectWhere.mp
        ((List.mem_insertionSort _).mp (List.mem_of_mem_take hmem))).1
      exact ⟨row, hrow, le_rfl, fun _ => ⟨rfl, fun a ha => nomatch ha⟩⟩
    · intro job hjob
      cases hjob

theorem cleanupInv_rpc {action : String} {params : Json} {timeout_ms : Nat} {r : Except String Json}
    (hinv : CleanupInv v trace s) :
    CleanupInv (v.next (.rpc action params timeout_ms) r)
      (.act () (.rpc action params timeout_ms) r :: trace) s := by
  have hjobs : (v.next (.rpc action params timeout_ms) r).jobs = v.jobs := by
    cases r <;> rfl
  refine ⟨hinv.wellFormed, hinv.drawn, hinv.queued, fun id row hrow step hstep hdone =>
    mem_okSince_act id (hinv.done id row hrow step hstep hdone), by rw [hjobs]; exact hinv.jobs_nodup,
    fun job hjob => ?_⟩
  rw [hjobs] at hjob
  obtain ⟨row, hrow, hle, hsame⟩ := hinv.jobs job hjob
  refine ⟨row, hrow, hle, fun hgen => ⟨(hsame hgen).1, fun a ha => ?_⟩⟩
  rw [okSince_act]
  cases r with
  | error e => exact (hsame hgen).2 a ha
  | ok reply =>
    rcases List.mem_cons.mp ha with rfl | ha
    · exact List.mem_cons_self
    · exact List.mem_cons_of_mem _ ((hsame hgen).2 a ha)

/-- No other job of a pass is about the same session. -/
theorem session_ne_of_mem_erase {jobs : List Job} (hnodup : (jobs.map Job.session_id).Nodup)
    {job job' : Job} (hjob : job ∈ jobs) (h : job' ∈ jobs.erase job) :
    job'.session_id ≠ job.session_id := by
  have hperm := (List.perm_cons_erase hjob).map Job.session_id
  rw [hperm.nodup_iff, List.map_cons, List.nodup_cons] at hnodup
  exact fun heq => hnodup.1 (List.mem_map.mpr ⟨job', h, heq⟩)

/-- A job is written back: rows of other sessions, and the jobs that are left, are as before. -/
theorem cleanupInv_writeBack {job : Job} {e : Await} {r : e.Answer} {ev : Event}
    (hinv : CleanupInv v trace s) (hjob : job ∈ v.jobs) (heff : Effect s ev s')
    (hev : ∀ id, ev ≠ .created id) (htomb : s'.tombstones = s.tombstones)
    (hother : ∀ id, id ≠ job.session_id → s'.cascade[id]? = s.cascade[id]?)
    (hrow : ∀ row, s'.cascade[job.session_id]? = some row →
      (∃ row', s.cascade[job.session_id]? = some row') ∧
      ∀ step ∈ stepsOf (.ofRow job.session_id row), step.key ∈ row.done →
        (step.action, step.params) ∈ okSince job.session_id trace) :
    CleanupInv { v with jobs := v.jobs.erase job } (.act () e r :: trace) s' := by
  have hcreated : ∀ {P : String → Prop} (id : String), ev = .created id → P id := fun id h =>
    absurd h (hev id)
  constructor
  case wellFormed => exact heff.wellFormed hinv.wellFormed hcreated
  case drawn => exact heff.drawn hinv.drawn (fun id h => h) hcreated
  case queued =>
    intro id row h
    rw [htomb]
    by_cases hid : id = job.session_id
    · subst hid
      obtain ⟨row', hrow'⟩ := (hrow row h).1
      exact hinv.queued _ row' hrow'
    · rw [hother id hid] at h
      exact hinv.queued id row h
  case done =>
    intro id row h step hstep hdone
    by_cases hid : id = job.session_id
    · subst hid
      exact mem_okSince_act _ ((hrow row h).2 step hstep hdone)
    · rw [hother id hid] at h
      exact mem_okSince_act _ (hinv.done id row h step hstep hdone)
  case jobs_nodup => exact hinv.jobs_nodup.sublist (List.erase_sublist.map _)
  case jobs =>
    intro job' hjob'
    obtain ⟨row, h, hle, hsame⟩ := hinv.jobs job' (List.mem_of_mem_erase hjob')
    rw [hother _ (session_ne_of_mem_erase hinv.jobs_nodup hjob hjob')]
    exact ⟨row, h, hle, fun hgen => ⟨(hsame hgen).1, fun a ha =>
      mem_okSince_act _ ((hsame hgen).2 a ha)⟩⟩

theorem cleanupInv_saveProgress {job : Job} {keys : List String} {now : Int} {backoff : Bool}
    {fault : Option String} {r : Except String Unit} (hinv : CleanupInv v trace s)
    (hjob : job ∈ v.jobs) (hp : Progress job v keys)
    (h : (saveProgress job keys now backoff fault).exec s = (r, s')) :
    CleanupInv { v with jobs := v.jobs.erase job }
      (.act () (.saveProgress job keys now backoff) r :: trace) s' := by
  obtain ⟨ev, heff, hans, -⟩ := saveProgress_effect h
  generalize (r.map fun _ => Reply.saved) = reply at hans
  have hwrite := heff
  cases heff with
  | @saved _ row _ hrow hgen attempts next_at =>
    cases hans
    refine cleanupInv_writeBack hinv hjob hwrite (fun id h => nomatch h) rfl (fun id hid => ?_)
      fun row' hrow' => ?_
    · simp only [Table.getElem?_insert_ite, if_neg (Ne.symm hid)]
    · simp only [Table.getElem?_insert_ite, if_true] at hrow'
      obtain rfl := Option.some.inj hrow'
      refine ⟨⟨row, hrow⟩, fun step hstep hdone => ?_⟩
      refine hinv.progress hjob hp hrow hgen step hstep ?_
      exact (List.mem_insertionSort _).mp hdone
  | nothing =>
    refine cleanupInv_writeBack hinv hjob hwrite (fun id h => nomatch h) rfl (fun id hid => rfl)
      fun row hrow => ⟨⟨row, hrow⟩, hinv.done _ row hrow⟩
  | _ => cases hans

theorem cleanupInv_finish {job : Job} {now : Int} {fault : Option String} {r : Except String Bool}
    (hinv : CleanupInv v trace s) (hjob : job ∈ v.jobs) (h : (finish job now fault).exec s = (r, s')) :
    CleanupInv { v with jobs := v.jobs.erase job } (.act () (.finish job now) r :: trace) s' := by
  obtain ⟨ev, heff, hans, -⟩ := finish_effect h
  generalize r.map Reply.finished = reply at hans
  have hwrite := heff
  cases heff with
  | @finished _ row hrow hgen swept =>
    cases hans
    refine cleanupInv_writeBack hinv hjob hwrite (fun id h => nomatch h) rfl (fun id hid => ?_)
      fun row' hrow' => ?_
    · simp only [Table.getElem?_erase_ite, if_neg (Ne.symm hid)]
    · simp only [Table.getElem?_erase_ite, if_true] at hrow'
      cases hrow'
  | nothing =>
    refine cleanupInv_writeBack hinv hjob hwrite (fun id h => nomatch h) rfl (fun id hid => rfl)
      fun row hrow => ⟨⟨row, hrow⟩, hinv.done _ row hrow⟩
  | _ => cases hans

/-- Only a delete that did the work and a requeue reset a session. -/
theorem event_of_resets {l : CallLabel} {ev : Event} {id : String} (hans : ev.Answers l.call l.reply)
    (h : resets id (.env l) = true) :
    (∃ rev, ev = .deleted id rev) ∨ ∃ turn_ids, ev = .requeued id turn_ids := by
  unfold resets at h
  simp only at h
  generalize l.call = call at hans h
  generalize l.reply = reply at hans h
  cases hans with
  | deleted =>
    obtain ⟨hid, -⟩ := (Bool.and_eq_true _ _).mp h
    exact .inl ⟨_, by rw [of_decide_eq_true hid]⟩
  | requeued => exact .inr ⟨_, by rw [of_decide_eq_true h]⟩
  | undeleted => simp at h
  | @failed call => cases call <;> cases h
  | _ => cases h

theorem okSince_env {l : CallLabel} {ev : Event} {id : String} (hans : ev.Answers l.call l.reply)
    (hdeleted : ∀ rev, ev ≠ .deleted id rev) (hrequeued : ∀ turn_ids, ev ≠ .requeued id turn_ids) :
    okSince id (.env l :: trace) = okSince id trace := by
  have hno : resets id (.env l) ≠ true := by
    intro h
    rcases event_of_resets hans h with ⟨rev, rfl⟩ | ⟨ids, rfl⟩
    · exact hdeleted rev rfl
    · exact hrequeued ids rfl
  rw [okSince, if_neg hno]
  rfl

/-- A session is reset: nothing is done for it any more, and no job of a pass may finish it. -/
theorem cleanupInv_reset {l : CallLabel} {id : String} {row : CascadeRow} {ev : Event}
    (hinv : CleanupInv v trace s) (hans : ev.Answers l.call l.reply)
    (hwf : s'.WellFormed) (hdrawn : Drawn (drawn (l :: otherCalls trace)) s')
    (hev : ∀ id', id' ≠ id → (∀ rev, ev ≠ .deleted id' rev) ∧ ∀ turn_ids, ev ≠ .requeued id' turn_ids)
    (hcascade : s'.cascade = s.cascade.insert id row) (hdone : row.done = [])
    (htomb : ∀ (id' : String) (rev : Nat), s.tombstones[id']? = some rev →
      ∃ rev', s'.tombstones[id']? = some rev') (hself : ∃ rev, s'.tombstones[id]? = some rev)
    (hgen : ∀ row', s.cascade[id]? = some row' → row'.gen < row.gen) :
    CleanupInv v (.env l :: trace) s' := by
  have hget : ∀ id', s'.cascade[id']? = if id = id' then some row else s.cascade[id']? := by
    intro id'
    rw [hcascade, Table.getElem?_insert_ite]
  refine ⟨hwf, hdrawn, fun id' row' h => ?_, fun id' row' h step hstep hkey => ?_, hinv.jobs_nodup,
    fun job hjob => ?_⟩
  · rw [hget] at h
    split_ifs at h with hid
    · exact hid ▸ hself
    · obtain ⟨rev, hrev⟩ := hinv.queued id' row' h
      exact htomb id' rev hrev
  · rw [hget] at h
    split_ifs at h with hid
    · obtain rfl := Option.some.inj h
      rw [hdone] at hkey
      cases hkey
    · obtain ⟨hd, hr⟩ := hev id' (Ne.symm hid)
      rw [okSince_env hans hd hr]
      exact hinv.done id' row' h step hstep hkey
  · obtain ⟨row', h, hle, hsame⟩ := hinv.jobs job hjob
    rw [hget]
    split_ifs with hid
    · have hlt := hgen row' (hid ▸ h)
      exact ⟨row, rfl, by omega, fun heq => by omega⟩
    · obtain ⟨hd, hr⟩ := hev job.session_id (Ne.symm hid)
      rw [okSince_env hans hd hr]
      exact ⟨row', h, hle, hsame⟩

/-- The calls beside the lane keep the invariant. -/
theorem cleanupInv_call {l : CallLabel} (hinv : CleanupInv v trace s)
    (h : CallStep s l s' ∧ BesideCleanup s l.call)
    (hids : (drawn (l :: otherCalls trace)).Nodup) : CleanupInv v (.env l :: trace) s' := by
  obtain ⟨hcall, hbeside⟩ := h
  rw [drawn_cons] at hids
  obtain ⟨hwf, hdrawn⟩ := hcall.wellFormed hinv.wellFormed hinv.drawn hids
  rw [← drawn_cons] at hdrawn
  obtain ⟨ev, heff, hans⟩ := perform_effect hcall.1
  -- an event that neither deletes nor requeues leaves the jobs and the tombstones alone
  have hother : (∀ id rev, ev ≠ .deleted id rev) → (∀ id turn_ids, ev ≠ .requeued id turn_ids) →
      s'.cascade = s.cascade → s'.tombstones = s.tombstones → CleanupInv v (.env l :: trace) s' := by
    intro hd hr hcascade htomb
    have hok : ∀ id, okSince id (.env l :: trace) = okSince id trace := fun id =>
      okSince_env hans (hd id) (hr id)
    refine ⟨hwf, hdrawn, ?_, ?_, hinv.jobs_nodup, ?_⟩
    · rw [hcascade, htomb]
      exact hinv.queued
    · simp only [hcascade, hok]
      exact hinv.done
    · simp only [hcascade, hok]
      exact hinv.jobs
  cases heff with
  | nothing | created | appended | edited | marked =>
    exact hother (fun _ _ h => nomatch h) (fun _ _ h => nomatch h) rfl rfl
  | @deleted id row row' hlt hrow htomb hdel hrev goal_ids =>
    refine cleanupInv_reset hinv hans hwf hdrawn (fun id' hne => ⟨?_, fun _ h => nomatch h⟩)
      rfl rfl (fun id' rev h => ?_) ⟨s.rev + 1, ?_⟩ fun row' h => ?_
    · rintro rev h
      exact hne (Event.deleted.inj h).1.symm
    · rw [Table.getElem?_insert_ite]
      split_ifs
      · exact ⟨_, rfl⟩
      · exact ⟨rev, h⟩
    · rw [Table.getElem?_insert_ite, if_pos rfl]
    · obtain ⟨rev, h⟩ := hinv.queued id row' h
      rw [htomb] at h
      cases h
  | @requeued id turn_ids =>
    have htomb : ∃ rev, s.tombstones[id]? = some rev := by
      generalize l.call = call at hans hbeside
      generalize l.reply = reply at hans
      cases hans
      exact Option.isSome_iff_exists.mp
        ((Std.ExtTreeMap.contains_eq_isSome_getElem?).symm.trans hbeside)
    refine cleanupInv_reset hinv hans hwf hdrawn (fun id' hne => ⟨fun _ h => (nomatch h), ?_⟩)
      rfl ?_ (fun id' rev h => ⟨rev, h⟩) htomb fun row' h => ?_
    · rintro ids h
      exact hne (Event.requeued.inj h).1.symm
    · cases s.cascade[id]? <;> rfl
    · rw [h]
      exact Nat.lt_succ_self _
  | saved | finished =>
    generalize l.call = call at hans hbeside
    generalize l.reply = reply at hans
    cases hans
    exact hbeside.elim

/-- An effect the lane may ask for keeps the invariant, however it is answered. -/
theorem cleanupInv_act {e : Await} {r : e.Answer} (hinv : CleanupInv v trace s)
    (hallowed : cleanupProtocol.allowed v e) (h : Served s e r s') :
    CleanupInv (v.next e r) (.act () e r :: trace) s' := by
  cases e with
  | dueJobs now =>
    obtain ⟨rfl, hr⟩ := h
    exact cleanupInv_dueJobs hinv hr
  | saveProgress job keys now backoff =>
    obtain ⟨fault, h⟩ := h
    exact cleanupInv_saveProgress hinv hallowed.1 hallowed.2 h
  | finish job now =>
    obtain ⟨fault, h⟩ := h
    exact cleanupInv_finish hinv hallowed.1 h
  | rpc action params timeout_ms =>
    obtain rfl : s' = s := h
    exact cleanupInv_rpc hinv
  | overBudget =>
    obtain rfl : s' = s := h
    exact ⟨hinv.1, hinv.2, hinv.3, hinv.4, hinv.5, hinv.6⟩
  | _ => exact hallowed.elim

/-- The lane and the store before its first pass. -/
def cleanupStart (nows : List Int) : LanePool where
  tasks _ := cleanupLane nows
  world := .empty

theorem cleanupInv_run {nows : List Int} {p : LanePool}
    (hrun : Run (LaneStep BesideCleanup) (cleanupStart nows) trace p) (hids : (drawn (otherCalls trace)).Nodup) :
    ∃ v, CleanupInv v trace p.world ∧
      Obeys cleanupProtocol (fun _ _ => True) v (p.tasks ()) := by
  have hpool : PoolInv cleanupProtocol (fun _ _ _ => True)
      (fun g trace s => (drawn (otherCalls trace)).Nodup → CleanupInv (g ()) trace s) trace p := by
    refine hrun.invariant ?_ fun trace p l p' ih h => ih.step ?_ ?_ h
    · refine ⟨fun _ => {}, fun _ => ?_, fun _ => obeys_cleanupLane nows {}⟩
      refine ⟨wellFormed_empty, ?_, ?_, ?_, List.nodup_nil, fun job h => nomatch h⟩
      · constructor <;> simp [cleanupStart, Store.empty]
      · simp [cleanupStart, Store.empty]
      · simp [cleanupStart, Store.empty]
    · intro g trace s _ e r s' hI hallowed h
      refine ⟨(g ()).next e r, rfl, fun hids => ?_⟩
      rw [Function.update_self]
      exact cleanupInv_act (hI hids) hallowed h
    · intro g trace s l s' hI h hids
      refine cleanupInv_call (hI ?_) h hids
      exact hids.sublist ((List.sublist_cons_self l (otherCalls trace)).filterMap _)
  obtain ⟨g, hI, hobeys⟩ := hpool
  exact ⟨g (), hI hids, hobeys ()⟩

/-- Only `finish` removes a row, at the generation it has read. -/
theorem finished_of_gone {ev : Event} {id : String} {row : CascadeRow} (h : Effect s ev s')
    (hrow : s.cascade[id]? = some row) (hgone : s'.cascade[id]? = none) :
    ∃ job, ev = .finished job ∧ job.session_id = id ∧ row.gen = job.gen := by
  cases h with
  | nothing | created | appended | edited | marked =>
    rw [hrow] at hgone
    cases hgone
  | deleted | requeued | saved =>
    rw [Table.getElem?_insert_ite] at hgone
    split_ifs at hgone
    rw [hrow] at hgone
    cases hgone
  | @finished job row' hrow' hgen =>
    rw [Table.getElem?_erase_ite] at hgone
    split_ifs at hgone with hid
    · subst hid
      rw [hrow] at hrow'
      obtain rfl := Option.some.inj hrow'
      exact ⟨job, rfl, rfl, hgen⟩
    · rw [hrow] at hgone
      cases hgone

/-- A cascade is never closed early: whenever its row is removed, every step for the ids stored in
    that row was answered `Ok` after the last delete or requeue of the session. -/
theorem cascade_not_closed_early {nows : List Int} {p p' : LanePool} {l : LaneLabel} {id : String}
    {row : CascadeRow} (hrun : Run (LaneStep BesideCleanup) (cleanupStart nows) trace p)
    (hids : (drawn (otherCalls (l :: trace))).Nodup) (hstep : LaneStep BesideCleanup p l p')
    (hrow : p.world.cascade[id]? = some row) (hgone : p'.world.cascade[id]? = none) :
    ∀ step ∈ stepsOf (.ofRow id row), (step.action, step.params) ∈ okSince id trace := by
  have hsub : (drawn (otherCalls trace)).Sublist (drawn (otherCalls (l :: trace))) :=
    ((List.sublist_cons_self l trace).filterMap _).filterMap _
  obtain ⟨v, hinv, hobeys⟩ := cleanupInv_run hrun (hids.sublist hsub)
  cases hstep with
  | @env l w h =>
    -- no call beside the lane removes a row
    obtain ⟨ev, heff, hans⟩ := perform_effect h.1.1
    obtain ⟨job, rfl, -⟩ := finished_of_gone heff hrow hgone
    have hbeside := h.2
    generalize l.call = call at hans hbeside
    generalize l.reply = reply at hans
    cases hans
    exact hbeside.elim
  | @act i e k r w htask h =>
    rw [htask] at hobeys
    have hallowed := hobeys.1
    have hstays : w = p.world → False := by
      rintro rfl
      rw [hrow] at hgone
      cases hgone
    cases e with
    | dueJobs => exact (hstays h.1).elim
    | rpc => exact (hstays h).elim
    | overBudget => exact (hstays h).elim
    | saveProgress job keys now backoff =>
      obtain ⟨fault, h⟩ := h
      obtain ⟨ev, heff, hans, -⟩ := saveProgress_effect h
      obtain ⟨job', rfl, -⟩ := finished_of_gone heff hrow hgone
      generalize (r.map fun _ => Reply.saved) = reply at hans
      cases hans
    | finish job now =>
      obtain ⟨fault, h⟩ := h
      obtain ⟨ev, heff, hans, -⟩ := finish_effect h
      obtain ⟨job', rfl, rfl, hgen⟩ := finished_of_gone heff hrow hgone
      generalize r.map Reply.finished = reply at hans
      cases hans
      obtain ⟨hjob, keys, hp, hall⟩ := hallowed
      intro step hstep
      have hjobstep : step ∈ stepsOf job := by
        obtain ⟨row', hrow', -, hsame⟩ := hinv.jobs job hjob
        obtain rfl : row' = row := Option.some.inj (hrow'.symm.trans hrow)
        rw [(hsame hgen.symm).1]
        exact hstep
      exact hinv.progress hjob hp hrow hgen step hstep (hall step hjobstep)
    | _ => exact hallowed.elim

/-- A session with one turn is deleted; the lane reads its job and has each of its four steps answered
    `Ok`, within the budget. -/
def sampleCleanup : List LaneRequest :=
  (sampleCalls.take 2).map .call ++ [.call (.delete "S1", none)] ++
    List.replicate 8 (.act (.ok .null))

def sampleCleanupRun : List LaneLabel × LanePool :=
  (runOf (answerLane BesideCleanup) (cleanupStart [3000]) sampleCleanup).get (by decide)

theorem cascade_not_closed_early_sample :
    ("vec_delete", Json.obj [("collection", .str turnsCollection), ("id", .str "T1")]) ∈
      okSince "S1" sampleCleanupRun.1 := by
  have hrun : Run (LaneStep BesideCleanup) (cleanupStart [3000]) sampleCleanupRun.1
      sampleCleanupRun.2 :=
    run_runOf (fun _ _ _ _ h => laneStep_answerLane h) (Option.some_get _).symm
  -- the last step is the lane's `finish`
  have hlast : (answerLane BesideCleanup sampleCleanupRun.2 (.act (.ok .null))).map (fun r =>
      (drawn (otherCalls (r.1 :: sampleCleanupRun.1)), r.2.world.cascade["S1"]?.isNone)) =
      some (["T1", "S1"], true) := by
    decide
  obtain ⟨⟨l, p'⟩, hl, heq⟩ := Option.map_eq_some_iff.mp hlast
  obtain ⟨hids, hgone⟩ := Prod.mk.inj heq
  have hrow : sampleCleanupRun.2.world.cascade["S1"]?.map CascadeRow.turn_ids = some ["T1"] := by
    decide
  obtain ⟨row, hrow, hturns⟩ := Option.map_eq_some_iff.mp hrow
  refine cascade_not_closed_early hrun (hids ▸ by decide) (laneStep_answerLane hl) hrow
    (Option.isNone_iff_eq_none.mp hgone) { key := "t:T1", plugin := "vector-db", .. } ?_
  simp [stepsOf, Job.ofRow, hturns]

end Chats
