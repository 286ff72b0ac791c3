import Mathlib.Data.Fintype.Basic
import VynkorPlugins.Sync.Host
import VynkorPlugins.Sync.Proofs.HandlerProofs

/-!
# No delta is lost by a mirror

A mirror that starts abreast of the host follows it as long as the deltas are published in the order
in which they were committed, and none is lost before it is published.
-/

namespace Sync

open Rust VersionedLog Transition
open SyncClient (Mirror)

/-! ## One delta -/

/-- The mirror has the values of the rows and the version of a store. -/
structure Mirrors (serde : Serde) (mirror : Mirror) (a : Table String Row × Nat) : Prop where
  version_eq : mirror.version = a.2
  state_eq (key : String) :
    mirror.state[key]?.map Except.ok = a.1[key]?.map fun row => serde.fromStr row.value

theorem deltaFromSlice_payloadJson (serde : Serde) (d : Delta) (hv : d.version ≤ i64Max) :
    SyncClient.deltaFromSlice serde d.payloadJson =
      .ok {
        op := d.op
        key := d.key
        value := serde.reread (jsonOption d.value)
        version := d.version } := by
  have hordered : Json.Ordered [("key", .str d.key), ("op", .str d.op),
      ("updated_at", .int d.updated_at), ("value", jsonOption d.value),
      ("version", .int d.version)] := by
    simp only [Json.Ordered, List.map_cons, List.map_nil]
    decide
  have hint : serde.reread (.int d.version) = .int d.version :=
    serde.reread_int (by omega) (by unfold i64Max at hv; omega)
  have hread := serde.readStruct_toVec ["op", "key", "value", "version"] hordered
  have hlt : d.version < 18446744073709551616 := by unfold i64Max at hv; omega
  rw [SyncClient.deltaFromSlice, Delta.payloadJson, hread]
  simp [Json.get, Json.fields, serde.reread_str, hint, hlt]

/-- The event by which a delta reaches the mirrors. -/
def deltaEvent (d : Delta) : SyncClient.Event :=
  { event_type := "plugin.sync." ++ deltaEventType, payload_json := d.payloadJson }

theorem deliver_deltaEnvelope (d : Delta) : deliver (deltaEnvelope d) = some (deltaEvent d) := rfl

/-- A delta that continues the version of the mirror is applied to it. -/
theorem Mirrors.onEvent {serde : Serde} {mirror : Mirror} {a : Table String Row × Nat} {d : Delta}
    (h : Mirrors serde mirror a) (hd : d.version = a.2 + 1) (hv : d.version ≤ i64Max) :
    Mirrors serde (SyncClient.onEvent serde mirror (deltaEvent d)) (replayDelta a.1 d, a.2 + 1) := by
  have hname : "plugin.sync." ++ deltaEventType = "plugin.sync.sync.delta" := rfl
  have hnew : ¬ d.version ≤ mirror.version := by rw [h.version_eq, hd]; omega
  have hread := deltaFromSlice_payloadJson serde d hv
  unfold SyncClient.onEvent
  simp only [deltaEvent, hname, hread, hnew, ne_eq, not_true_eq_false, if_false]
  refine ⟨hd, fun key => ?_⟩
  have hkey := h.state_eq key
  simp only [replayDelta]
  split_ifs
  · rw [Std.ExtTreeMap.getElem?_insert, Std.ExtTreeMap.getElem?_insert]
    by_cases hk : d.key = key
    · simp [hk, serde.fromStr_print]
    · simpa [hk] using hkey
  · rw [Std.ExtTreeMap.getElem?_erase, Std.ExtTreeMap.getElem?_erase]
    by_cases hk : d.key = key
    · simp [hk]
    · simpa [hk] using hkey
  · exact hkey

/-! ## Runs of the host -/

/-- The version of the delta an envelope carries. -/
def versionOf (serde : Serde) : Envelope → Option Nat
  | .eventPublish _ payload_json =>
    (SyncClient.deltaFromSlice serde payload_json).toOption.map SyncClient.Delta.version
  | .actionResponse .. => none

theorem versionOf_deltaEnvelope {serde : Serde} {d : Delta} (hv : d.version ≤ i64Max) :
    versionOf serde (deltaEnvelope d) = some d.version := by
  simp [versionOf, deltaEnvelope, deltaFromSlice_payloadJson serde d hv, Except.toOption]

variable {ι : Type}

/-- A delta is sent in the order of the commits: no task has an earlier one still to send. A request
    is handled in a state in which it does not lose what it prunes. -/
def InCommitOrder (serde : Serde) (h : SyncHandler) (w : Host ι) : HostLabel ι → Prop
  | .handle i env => ∀ req ∈ (w.tasks i).request,
      ¬ CallLosesPruned serde h env req.caller_plugin_id req.action w.store
  | .send i => ∀ v ∈ (w.tasks i).waiting.head?.bind (versionOf serde),
      ∀ j, ∀ e ∈ (w.tasks j).waiting, ∀ v' ∈ versionOf serde e, v ≤ v'

instance [Fintype ι] (serde : Serde) (h : SyncHandler) (w : Host ι) (l : HostLabel ι) :
    Decidable (InCommitOrder serde h w l) :=
  match l with
  | .handle i env => inferInstanceAs (Decidable (∀ req ∈ (w.tasks i).request,
      ¬ CallLosesPruned serde h env req.caller_plugin_id req.action w.store))
  | .send i => inferInstanceAs (Decidable (∀ v ∈ (w.tasks i).waiting.head?.bind (versionOf serde),
      ∀ j, ∀ e ∈ (w.tasks j).waiting, ∀ v' ∈ versionOf serde e, v ≤ v'))

/-- The envelopes of a task are at most its response and then the deltas `ds`. -/
def Holds (task : HandlerTask) (ds : List Delta) : Prop :=
  ∃ pre, task.waiting = pre ++ ds.map deltaEnvelope ∧ ∀ e ∈ pre, deliver e = none

/-- The mirror is abreast of a point in the history of the store, and the deltas from there on wait
    in the tasks. -/
def Following (serde : Serde) (mirror : Mirror) (w : Host ι) : Prop :=
  ∃ (mid : Table String Row × Nat) (pending : List Delta) (queue : ι → List Delta),
    Mirrors serde (mirrorAfter serde mirror w.published) mid ∧
      Extends replayDelta Delta.version mid pending w.store.at ∧
      Queued Delta.version pending queue ∧ ∀ i, Holds (w.tasks i) (queue i) ∧
        ∀ req, w.tasks i = .received req → queue i = []

theorem mirrorAfter_append (serde : Serde) (mirror : Mirror) (published : List Envelope)
    (e : Envelope) :
    mirrorAfter serde mirror (published ++ [e]) =
      match deliver e with
      | some event => SyncClient.onEvent serde (mirrorAfter serde mirror published) event
      | none => mirrorAfter serde mirror published := by
  unfold mirrorAfter
  rw [List.filterMap_append, List.foldl_append]
  cases hd : deliver e <;> simp [hd]

theorem following_start {serde : Serde} {mirror : Mirror} {w : Host ι}
    (hw : ∀ i, ∃ req, w.tasks i = .received req) (hp : w.published = [])
    (hm : Mirrors serde mirror w.store.at) : Following serde mirror w := by
  refine ⟨w.store.at, [], fun _ => [], ?_, .nil _, ⟨by simp, by simp, by simp⟩, fun i => ?_⟩
  · rw [hp]; exact hm
  · obtain ⟨req, hreq⟩ := hw i
    exact ⟨⟨[], by simp [hreq, HandlerTask.waiting], by simp⟩, fun _ _ => rfl⟩

variable [DecidableEq ι]

/-- The deltas of a handled request join the history at its end. -/
theorem Following.handle {serde : Serde} {h : SyncHandler} {mirror : Mirror} {w w' : Host ι} {i : ι}
    {env : Surroundings} (hf : Following serde mirror w)
    (hcond : InCommitOrder serde h w (.handle i env))
    (hstep : HostStep serde h w (.handle i env) w') : Following serde mirror w' := by
  obtain ⟨mid, pending, queue, hm, hext, hq, hholds⟩ := hf
  cases htask : w.tasks i with
  | sending rest => simp [HostStep, hostStep, htask] at hstep
  | received req =>
    have hkeep := hcond req (by rw [htask]; rfl)
    simp only [HostStep, hostStep, htask, Option.some.injEq] at hstep
    subst hstep
    set call := (Sync.handle serde h env req.caller_plugin_id req.action req.params_json).exec w.store
    have hcomplete : Complete w.store call := by
      rcases handle_cases serde h env req.caller_plugin_id req.action req.params_json w.store with
        ⟨_, hc⟩ | ⟨hl, _⟩
      · exact hc
      · exact absurd hl hkeep
    have hi : queue i = [] := (hholds i).2 req htask
    -- the task holds its response and the deltas of its call, whatever the call gave
    obtain ⟨ds, hlog, hpost⟩ : ∃ ds, Logs w.store ds call.2 ∧
        Holds (.sending (onAction req call.1)) ds := by
      rcases call with ⟨e | ⟨response, ds⟩, s'⟩
      · obtain rfl : s' = w.store := hcomplete
        exact ⟨[], .nil _, [_], rfl, by simp [deliver]⟩
      · exact ⟨ds, hcomplete, [.actionResponse req.action_id (.ok response)], rfl, by simp [deliver]⟩
    refine ⟨mid, pending ++ ds, Function.update queue i ds, hm, hext.append hlog, ?_, fun j => ?_⟩
    · refine hq.push hi hlog.pairwise fun d hd d' hd' => ?_
      have hle := (hext.version_bounds d hd).2
      have hlt := (hlog.version_bounds d' hd').1
      exact hle.trans_lt hlt
    · by_cases hji : j = i
      · subst hji
        simp only [Function.update_self]
        exact ⟨hpost, fun _ hr => nomatch hr⟩
      · simp only [Function.update_of_ne hji]
        exact hholds j

/-- An envelope that is sent is no delta, or the earliest delta that waits. -/
theorem Following.send {serde : Serde} {h : SyncHandler} {mirror : Mirror} {w w' : Host ι} {i : ι}
    (hf : Following serde mirror w) (hcond : InCommitOrder serde h w (.send i))
    (hstep : HostStep serde h w (.send i) w') : Following serde mirror w' := by
  obtain ⟨mid, pending, queue, hm, hext, hq, hholds⟩ := hf
  obtain ⟨e, rest, htask⟩ : ∃ e rest, w.tasks i = .sending (e :: rest) := by
    unfold HostStep hostStep at hstep
    rcases htask : w.tasks i with req | (_ | ⟨e, rest⟩)
    · simp [htask] at hstep
    · simp [htask] at hstep
    · exact ⟨e, rest, rfl⟩
  simp only [HostStep, hostStep, htask, Option.some.injEq] at hstep
  subst hstep
  obtain ⟨pre, hwait, hpre⟩ := (hholds i).1
  rw [htask, HandlerTask.waiting] at hwait
  have hupdate : ∀ (q : ι → List Delta) (ds : List Delta), (∀ j, j ≠ i → q j = queue j) → q i = ds →
      Holds (.sending rest) ds → ∀ j,
        Holds (Function.update w.tasks i (.sending rest) j) (q j) ∧
          ∀ req, Function.update w.tasks i (.sending rest) j = .received req → q j = [] := by
    intro q ds hother hself hrest j
    by_cases hji : j = i
    · subst hji
      rw [Function.update_self, hself]
      exact ⟨hrest, fun _ hr => nomatch hr⟩
    · rw [Function.update_of_ne hji, hother j hji]
      exact hholds j
  cases pre with
  | cons p pre =>
    -- a response: no mirror hears of it
    rw [List.cons_append, List.cons.injEq] at hwait
    obtain ⟨rfl, hrest⟩ := hwait
    refine ⟨mid, pending, queue, ?_, hext, hq, hupdate queue _ (fun _ _ => rfl) rfl ⟨pre, hrest, ?_⟩⟩
    · rw [mirrorAfter_append, hpre e (by simp)]
      exact hm
    · exact fun e' he' => hpre e' (List.mem_cons_of_mem _ he')
  | nil =>
    rw [List.nil_append] at hwait
    obtain ⟨d, ds, hqi⟩ : ∃ d ds, queue i = d :: ds := by
      cases hqi : queue i with
      | nil => rw [hqi] at hwait; cases hwait
      | cons d ds => exact ⟨d, ds, rfl⟩
    rw [hqi, List.map_cons, List.cons.injEq] at hwait
    obtain ⟨rfl, rfl⟩ := hwait
    have hbound : ∀ j, ∀ d' ∈ queue j, d'.version ≤ i64Max := fun j d' hd' =>
      (hext.version_bounds d' ((hq.mem_iff d').mpr ⟨j, hd'⟩)).2.trans w.store.version_le
    have hd : d.version ≤ i64Max := hbound i d (by simp [hqi])
    have hmin : ∀ j, ∀ d' ∈ queue j, d.version ≤ d'.version := by
      intro j d' hd'
      obtain ⟨pre', hwait', _⟩ := (hholds j).1
      have hfirst : d.version ∈ (w.tasks i).waiting.head?.bind (versionOf serde) := by
        rw [htask, HandlerTask.waiting, List.head?_cons, Option.bind_some]
        exact versionOf_deltaEnvelope hd
      have hin : deltaEnvelope d' ∈ (w.tasks j).waiting := by
        rw [hwait']
        exact List.mem_append_right _ (List.mem_map_of_mem hd')
      have hversion : d'.version ∈ versionOf serde (deltaEnvelope d') :=
        versionOf_deltaEnvelope (hbound j d' hd')
      exact hcond d.version hfirst j (deltaEnvelope d') hin d'.version hversion
    obtain ⟨pending', rfl, hq'⟩ := hq.pop hext.pairwise hqi hmin
    obtain ⟨hv, htail⟩ := hext.tail
    refine ⟨_, pending', _, ?_, htail, hq', hupdate _ ds (fun j hji => ?_) ?_ ⟨[], rfl, by simp⟩⟩
    · rw [mirrorAfter_append, deliver_deltaEnvelope]
      exact hm.onEvent hv hd
    · exact Function.update_of_ne hji _ _
    · exact Function.update_self _ _ _

/-- In every run whose deltas are published in the order of the commits and whose snapshots do not
    lose what they prune, a mirror that starts abreast of the store has the state and the version of
    the store once all the envelopes of the handled requests are published. -/
theorem mirror_loses_no_delta {serde : Serde} {h : SyncHandler} {mirror : Mirror} {w₀ w : Host ι}
    {trace : List (HostLabel ι)} (hstart : ∀ i, ∃ req, w₀.tasks i = .received req)
    (hpublished : w₀.published = []) (hmirror : Mirrors serde mirror w₀.store.at)
    (hrun : Run (Where (InCommitOrder serde h) (HostStep serde h)) w₀ trace w)
    (hdone : ∀ i, (w.tasks i).waiting = []) :
    Mirrors serde (mirrorAfter serde mirror w.published) w.store.at := by
  have hf : Following serde mirror w := by
    refine hrun.invariant_state (following_start hstart hpublished hmirror) ?_
    intro w l w' hf hl
    cases l with
    | handle i env => exact hf.handle hl.2 hl.1
    | send i => exact hf.send hl.2 hl.1
  obtain ⟨mid, pending, queue, hm, hext, hq, hholds⟩ := hf
  have hpending : pending = [] := by
    refine List.eq_nil_iff_forall_not_mem.mpr fun d hd => ?_
    obtain ⟨i, hi⟩ := (hq.mem_iff d).mp hd
    obtain ⟨pre, hwait, _⟩ := (hholds i).1
    rw [hdone i] at hwait
    have hempty : (queue i).map deltaEnvelope = [] := (List.append_eq_nil_iff.mp hwait.symm).2
    rw [List.map_eq_nil_iff.mp hempty] at hi
    cases hi
  subst hpending
  cases hext
  exact hm

/-! ## Two tasks -/

/-- Two requests to a host with an empty store. -/
def twoSets : Host Bool where
  tasks i := .received {
    action_id := "1"
    caller_plugin_id := "caller"
    action := "sync_set"
    params_json := (Json.obj [("key", .str (if i then "b" else "a")), ("value", .int 1)]).toVec }
  store := { state := ∅, version := 0, version_le := by decide }
  published := []

def smallHost : SyncHandler :=
  { max_value_bytes := 64, max_response_bytes := 64, heartbeat_ttl_secs := 0 }

def quiet : Surroundings := { now_ms := 0, prune_now_ms := 0, fault := none }

theorem mirrors_twoSets : Mirrors .compact { version := 0, state := ∅ } twoSets.store.at :=
  ⟨rfl, fun _ => rfl⟩

theorem twoSets_received (i : Bool) : ∃ req, twoSets.tasks i = .received req :=
  ⟨_, rfl⟩

/-- Both requests are handled before either task publishes, and the tasks publish in the order of
    the commits. -/
theorem twoSets_in_order : ∃ (trace : List (HostLabel Bool)) (w : Host Bool),
    Run (Where (InCommitOrder .compact smallHost) (HostStep .compact smallHost)) twoSets trace w ∧
      w.store.version = 2 ∧
      Mirrors .compact (mirrorAfter .compact { version := 0, state := ∅ } w.published) w.store.at := by
  let labels : List (HostLabel Bool) := [.handle false quiet, .handle true quiet, .send false,
    .send false, .send true, .send true]
  have hdone : ((runWhere (InCommitOrder .compact smallHost) (hostStep .compact smallHost) twoSets
      labels).any fun w => (∀ i, (w.tasks i).waiting.isEmpty) ∧ w.store.version = 2) := by
    decide +kernel
  rw [Option.any_eq_true] at hdone
  obtain ⟨w, hw, hdone⟩ := hdone
  have hrun := run_of_runWhere .start hw
  obtain ⟨hempty, hversion⟩ := of_decide_eq_true hdone
  exact ⟨_, w, hrun, hversion, mirror_loses_no_delta twoSets_received rfl mirrors_twoSets hrun
    fun i => List.isEmpty_iff.mp (hempty i)⟩

/-- The task that commits last publishes first: the mirror takes its delta and then drops the other
    one, whose version is lower. -/
theorem mirror_drops_delta :
    ¬ ∀ (ι : Type) [DecidableEq ι] (serde : Serde) (h : SyncHandler) (mirror : Mirror)
      (w₀ w : Host ι) (trace : List (HostLabel ι)), (∀ i, ∃ req, w₀.tasks i = .received req) →
      w₀.published = [] → Mirrors serde mirror w₀.store.at → Run (HostStep serde h) w₀ trace w →
      (∀ i, (w.tasks i).waiting = []) →
      Mirrors serde (mirrorAfter serde mirror w.published) w.store.at := by
  intro hall
  let labels : List (HostLabel Bool) := [.handle false quiet, .handle true quiet, .send true,
    .send true, .send false, .send false]
  have hdone : ((runWhere (fun _ _ => True) (hostStep .compact smallHost) twoSets labels).any
      fun w => (∀ i, (w.tasks i).waiting.isEmpty) ∧ w.store.state.contains "a" ∧
        ((mirrorAfter .compact { version := 0, state := ∅ } w.published).state.contains "a") = false) := by
    decide +kernel
  rw [Option.any_eq_true] at hdone
  obtain ⟨w, hw, hdone⟩ := hdone
  obtain ⟨hempty, hhost, hmirror⟩ := of_decide_eq_true hdone
  have hrun := (run_of_runWhere .start hw).mono fun _ _ _ h => h.1
  have hagree := hall Bool .compact smallHost { version := 0, state := ∅ } twoSets w _
    twoSets_received rfl mirrors_twoSets hrun fun i => List.isEmpty_iff.mp (hempty i)
  have hkey := congrArg Option.isSome (hagree.state_eq "a")
  rw [Option.isSome_map, Option.isSome_map, ← Std.ExtTreeMap.contains_eq_isSome_getElem?, hmirror,
    ← Std.ExtTreeMap.contains_eq_isSome_getElem?] at hkey
  exact absurd (hkey.trans hhost) (by decide)

end Sync
