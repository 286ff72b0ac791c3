import VynkorPlugins.Uptime.World

/-!
# What a scan does with one target

A scan lists the target, reads its state, checks it, stores the state it has advanced and, at its
end, puts the alert of the target on the bus. `Phase` is where it is with the target; a request is in
none of the phases, it may have drawn the id of the target.
-/

namespace Uptime

open Async

variable {threshold : Nat} {r : String}

/-- Where a scan is with the target. -/
inductive Phase where
  | idle
  /-- It has listed the targets, with this one among them or not. -/
  | listed (has : Bool)
  | keys (has : Bool) (keys : List String)
  /-- It has a copy of the state and has still to check the target. -/
  | todo (copy : TargetState)
  | checked (copy : TargetState) (ok : Bool)
  /-- It has stored the state, or has failed to. -/
  | settled (unsent : List Alert)
  | processed (unsent : List Alert)
  | failed
  | ended

structure Local where
  spawn : Spawn
  drawn : Bool
  phase : Phase

def Local.start (spawn : Spawn) : Local where
  spawn
  drawn := false
  phase := .idle

/-- What a check makes of a state. -/
structure Advanced (threshold : Nat) (before : TargetState) (ok : Bool) (after : TargetState) :
    Prop where
  up : ok = true → after = .default
  streak : ok = false → after.fail_streak ≤ before.fail_streak + 1
  outage : after.alerting = true → before.alerting = false → threshold ≤ after.fail_streak
  stays : ok = false → before.alerting = true → after.alerting = true

theorem advanced_advance {t : TargetState} {url : String} {res : CheckResult} {now : Int64} :
    Advanced threshold t res.ok (advance t url res now threshold).1 := by
  refine ⟨advance_ok, fun h => (advance_failed h).1, fun hon hoff => ?_, fun h => (advance_failed h).2.2⟩
  cases hok : res.ok with
  | true =>
    rw [advance_ok hok] at hon
    cases hon
  | false => exact (advance_failed hok).2.1 hon hoff

/-- The alert of a state that is stored over another one. -/
def turns (before after : TargetState) : List Alert :=
  if before.alerting = after.alerting then []
  else [if after.alerting then .check_failed else .recovered]

theorem advance_alerts {t : TargetState} {url : String} {res : CheckResult} {now : Int64} :
    ((advance t url res now threshold).2.map Prod.fst).toList =
      turns t (advance t url res now threshold).1 := by
  rw [advance_event]
  unfold turns
  by_cases hsame : (advance t url res now threshold).1.alerting = t.alerting
  · rw [if_pos hsame, if_pos hsame.symm]
    rfl
  · rw [if_neg hsame, if_neg (Ne.symm hsame)]
    split_ifs <;> rfl

namespace Local

variable (s : Local)

/-- A scan moves on, a request does not. -/
def move (phase : Phase) : Local :=
  match s.spawn with
  | .tick => { s with phase }
  | .request _ => s

def check (ok : Bool) : Local :=
  match s.phase with
  | .todo copy => { s with phase := .checked copy ok }
  | _ => s

def settle (st : TargetState) (stored : Bool) : Local :=
  match s.phase with
  | .checked copy _ => { s with phase := .settled (if stored then turns copy st else []) }
  | _ => s

def process : Local :=
  match s.phase with
  | .settled unsent => { s with phase := .processed unsent }
  | .checked .. => { s with phase := .processed [] }
  | _ => s

def send : Local :=
  match s.phase with
  | .processed unsent => { s with phase := .processed unsent.tail }
  | _ => s

/-- The states are read. -/
def read (has : Bool) (copy : TargetState) : Local :=
  s.move (if has then .todo copy else .processed [])

def list_states (keys : List String) : Local :=
  match s.phase with
  | .listed has => if keys = [] then s.read has .default else s.move (.keys has keys)
  | _ => s

def get_states (copy : TargetState) : Local :=
  match s.phase with
  | .keys has _ => s.read has copy
  | _ => s

/-- A scan that is before or behind the target. -/
def Apart : Prop :=
  (∃ copy, s.phase = .todo copy) ∨ ∃ unsent, s.phase = .processed unsent

def Allowed (threshold : Nat) (r : String) : Eff → Prop
  | .db_keys .target => s.phase = .idle
  | .get_targets _ => s.phase = .idle
  | .db_keys .state => ∃ has, s.phase = .listed has
  | .get_states keys => ∃ has, s.phase = .keys has keys
  | .db_incr .next_target_id => s.drawn = false
  | .db_incr .next_check_id => s.phase ≠ .ended
  | .put_target t => t.id = r → s.drawn = true
  | .http_request (some id) _ _ => if id = r then ∃ copy, s.phase = .todo copy else s.Apart
  | .put_state id st => id = r → ∃ copy ok, s.phase = .checked copy ok ∧ Advanced threshold copy ok st
  | .put_check _ => ∀ copy ok, s.phase = .checked copy ok → Advanced threshold copy ok copy
  | .alert id alert _ => id = r → ∃ rest, s.phase = .processed (alert :: rest)
  | .ended => s.spawn = .tick ∧ (s.phase = .failed ∨ s.phase = .processed [])
  | _ => True

def Next (r : String) : (e : Eff) → e.Answer → Local → Prop
  | .db_keys .target, .ok keys, s' => s' = if keys = [] then s.move (.listed false) else s
  | .get_targets _, .ok ts, s' =>
    (ts.map Target.id).Nodup ∧ s' = s.move (.listed (r ∈ ts.map Target.id))
  | .db_keys .target, .error _, s' | .get_targets _, .error _, s' | .db_keys .state, .error _, s'
  | .get_states _, .error _, s' | .db_incr .next_check_id, .error _, s' => s' = s.move .failed
  | .db_keys .state, .ok keys, s' => s' = s.list_states keys
  | .get_states _, .ok states, s' => s' = s.get_states (states[r]?.getD .default)
  | .db_incr .next_target_id, .ok n, s' => s' = { s with drawn := toString n = r }
  | .put_target t, _, s' => s' = if t.id = r then { s with drawn := false } else s
  | .http_request (some id) _ _, a, s' => s' = if id = r then s.check (CheckResult.of a.1 a.2).ok else s
  | .put_state id st, .ok _, s' => s' = if id = r then s.settle st true else s
  | .put_state id st, .error _, s' => s' = if id = r then s.settle st false else s
  | .put_check _, _, s' => s' = s.process
  | .alert id _ _, _, s' => s' = if id = r then s.send else s
  | .ended, _, s' => s' = { s with phase := .ended }
  | _, _, s' => s' = s

end Local

def targetProtocol (threshold : Nat) (r : String) : Protocol Eff Eff.Answer Local where
  allowed s := s.Allowed threshold r
  next s := s.Next r

/-! ## Requests -/

section

variable {s : Local} {α : Type}

/-- The effects that leave a task where it is. -/
def Quiet : Eff → Prop
  | .now | .db_keys .check | .get_checks _ | .delete_target _ | .delete_state _ | .delete_check _
  | .http_request none _ _ | .publish .. | .reply _ => True
  | _ => False

theorem allowed_of_quiet {e : Eff} (h : Quiet e) : s.Allowed threshold r e := by
  unfold Quiet at h
  split at h <;> trivial

theorem eq_of_quiet {e : Eff} {a : e.Answer} {s' : Local} (h : Quiet e) (hs : s.Next r e a s') :
    s' = s := by
  unfold Quiet at h
  split at h <;> trivial

theorem obeys_of_quiet {m : Act α} (h : Asks Quiet m) :
    Obeys (targetProtocol threshold r) (fun s' _ => s' = s) s m := by
  induction h with
  | done => rfl
  | call he _ ih =>
    refine ⟨allowed_of_quiet he, fun a s' hs => ?_⟩
    obtain rfl := eq_of_quiet he hs
    exact ih a

theorem asks_list_checks : Asks Quiet Db.list_checks := by
  refine .call trivial fun a => ?_
  cases a with
  | error e => exact .done
  | ok keys =>
    change Asks Quiet (if keys = [] then _ else _)
    split_ifs
    · exact .done
    · exact asks_perform trivial

theorem asks_delete_checks (cs : List Check) (n : Nat) : Asks Quiet (Db.delete_checks cs n) := by
  induction cs generalizing n with
  | nil => exact .done
  | cons c cs ih =>
    refine .call trivial fun a => ?_
    cases a with
    | error e => exact .done
    | ok deleted => exact ih _

theorem asks_trim_checks (max : Nat) : Asks Quiet (Db.trim_checks max) := by
  unfold Db.trim_checks
  split_ifs
  · exact .done
  · refine asks_list_checks.bind fun a => ?_
    cases a with
    | error e => exact .done
    | ok all =>
      change Asks Quiet (if all.length ≤ max then _ else _)
      split_ifs
      · exact .done
      · exact asks_delete_checks _ 0

/-- The targets are listed. -/
theorem obeys_list_targets (h : s.phase = .idle) :
    Obeys (targetProtocol threshold r)
      (fun s' res =>
        match res with
        | .error _ => s' = s.move .failed
        | .ok ts => (ts.map Target.id).Nodup ∧ s' = s.move (.listed (r ∈ ts.map Target.id)))
      s Db.list_targets := by
  refine ⟨h, ?_⟩
  rintro (e | keys) s' hs
  · exact hs
  change s' = if keys = [] then _ else _ at hs
  change Obeys _ _ _ (if keys = [] then _ else _)
  split_ifs at hs ⊢
  · refine ⟨List.nodup_nil, ?_⟩
    rw [hs]
    simp
  · obtain rfl := hs
    refine ⟨h, ?_⟩
    rintro (e | ts) s' hs
    · exact hs
    · exact hs

/-- The task of a request that has not drawn the id of the target. -/
structure Local.Requested (s : Local) : Prop where
  request : ∃ req, s.spawn = .request req
  phase : s.phase = .idle

theorem Local.Requested.move (h : s.Requested) (phase : Phase) : s.move phase = s := by
  obtain ⟨req, hreq⟩ := h.request
  unfold Local.move
  rw [hreq]

theorem Local.Requested.process (h : s.Requested) : s.process = s := by
  unfold Local.process
  rw [h.phase]

theorem obeys_uptime_add (h : s.Requested) (hdrawn : s.drawn = false) (url : String) :
    Obeys (targetProtocol threshold r) (fun _ _ => True) s (uptime_add url) := by
  refine (obeys_list_targets h.phase).bind ?_
  rintro s' (e | existing) hs
  · trivial
  obtain ⟨-, hs⟩ := hs
  rw [h.move] at hs
  subst hs
  dsimp only
  split
  · trivial
  · refine ⟨hdrawn, ?_⟩
    rintro (e | n) s' rfl
    · trivial
    · refine ⟨trivial, ?_⟩
      rintro now s' rfl
      refine ⟨fun hid => decide_eq_true hid, ?_⟩
      rintro (e | -) s' -
      · trivial
      · trivial

theorem obeys_uptime_check (h : s.Requested) (config : Config) (url : String) (timeout_ms : UInt64) :
    Obeys (targetProtocol threshold r) (fun _ _ => True) s (uptime_check config url timeout_ms) := by
  refine ⟨trivial, ?_⟩
  rintro a s' rfl
  refine ⟨fun hended => ?_, ?_⟩
  · rw [h.phase] at hended
    cases hended
  rintro (e | id) s' rfl
  · trivial
  refine ⟨trivial, ?_⟩
  rintro now s' rfl
  refine ⟨fun copy ok hphase => ?_, ?_⟩
  · rw [h.phase] at hphase
    cases hphase
  · rintro stored s' rfl
    exact (obeys_of_quiet (asks_trim_checks config.max_checks)).bind fun _ _ _ => trivial

theorem obeys_handle_action (h : s.Requested) (hdrawn : s.drawn = false) (config : Config)
    (req : UptimeRequest) :
    Obeys (targetProtocol threshold r) (fun _ _ => True) s (handle_action config req) := by
  cases req with
  | Add url => exact obeys_uptime_add h hdrawn url
  | Remove id =>
    refine ⟨trivial, ?_⟩
    rintro (e | removed) s' rfl
    · trivial
    · exact ⟨trivial, fun _ _ _ => trivial⟩
  | List =>
    refine (obeys_list_targets h.phase).bind ?_
    rintro s' (e | targets) -
    · trivial
    · trivial
  | Check url timeout_ms => exact obeys_uptime_check h config url timeout_ms
  | History url limit offset =>
    refine (obeys_of_quiet asks_list_checks).bind ?_
    rintro s' (e | checks) -
    · trivial
    · trivial
  | Status => trivial

end

/-! ## Scans -/

/-- The alerts of a target among the events of a scan. -/
def alertsOf (r : String) (events : List ScanEvent) : List Alert :=
  (events.filter fun e => e.target = r).map ScanEvent.alert

theorem alertsOf_append (r : String) (es es' : List ScanEvent) :
    alertsOf r (es ++ es') = alertsOf r es ++ alertsOf r es' := by
  unfold alertsOf
  rw [List.filter_append, List.map_append]

theorem alertsOf_cons (r : String) (e : ScanEvent) (es : List ScanEvent) :
    alertsOf r (e :: es) = if e.target = r then e.alert :: alertsOf r es else alertsOf r es := by
  unfold alertsOf
  by_cases he : e.target = r
  · rw [List.filter_cons_of_pos (by simpa using he), if_pos he]
    rfl
  · rw [List.filter_cons_of_neg (by simpa using he), if_neg he]

/-- The events of one target of a scan. -/
def stepEvents (id : String) (persisted : Bool) (event : Option (Alert × Json)) : List ScanEvent :=
  match persisted, event with
  | true, some (alert, payload) => [{ target := id, alert, payload : ScanEvent }]
  | _, _ => []

theorem alertsOf_stepEvents (id : String) (persisted : Bool) (event : Option (Alert × Json)) :
    alertsOf r (stepEvents id persisted event) =
      if id = r ∧ persisted = true then (event.map Prod.fst).toList else [] := by
  cases persisted with
  | false => rw [if_neg (fun h => nomatch h.2)]; rfl
  | true =>
    cases event with
    | none => split_ifs <;> rfl
    | some event =>
      change alertsOf r [_] = _
      rw [alertsOf_cons]
      by_cases hid : id = r
      · rw [if_pos hid, if_pos ⟨hid, rfl⟩]
        rfl
      · rw [if_neg hid, if_neg (fun h => hid h.1)]
        rfl

/-- The target itself makes the first alerts of it. -/
theorem alertsOf_step {t : TargetState} {url : String} {res : CheckResult} {now : Int64}
    {persisted : Bool} {events : List ScanEvent} (hnone : alertsOf r events = []) :
    alertsOf r (events ++ stepEvents r persisted (advance t url res now threshold).2) =
      if persisted then turns t (advance t url res now threshold).1 else [] := by
  rw [alertsOf_append, hnone, alertsOf_stepEvents, advance_alerts, List.nil_append]
  cases persisted with
  | true => exact if_pos ⟨rfl, rfl⟩
  | false => exact if_neg fun h => nomatch h.2

section

variable {s : Local} {config : Config} {states : Table String TargetState} {targets : List Target}
  {scan : ScanResult}

theorem Local.move_of_tick (s : Local) (phase : Phase) (h : s.spawn = .tick) :
    s.move phase = { s with phase } := by
  unfold Local.move
  rw [h]

/-- The state of another target is stored. -/
theorem obeys_persist_of_ne {id : String} (hid : id ≠ r) (before st : TargetState) :
    Obeys (targetProtocol threshold r) (fun s' _ => s' = s) s (persist id before st) := by
  unfold persist
  split_ifs
  · rfl
  · refine ⟨fun h => absurd h hid, ?_⟩
    rintro (e | _) s' hs
    · exact hs.trans (if_neg hid)
    · exact hs.trans (if_neg hid)

/-- The state of the target is stored, unless it is as it was. -/
theorem obeys_persist {before st : TargetState} {ok : Bool} (hphase : s.phase = .checked before ok)
    (hst : Advanced threshold before ok st) :
    Obeys (targetProtocol threshold r)
      (fun s' persisted =>
        s'.process = { s with phase := .processed (if persisted then turns before st else []) } ∧
          ∀ copy ok, s'.phase = .checked copy ok → Advanced threshold copy ok copy)
      s (persist r before st) := by
  have hsettle : ∀ stored, s.settle st stored =
      { s with phase := .settled (if stored then turns before st else []) } := by
    intro stored
    unfold Local.settle
    rw [hphase]
  unfold persist
  split_ifs with hsame
  · subst hsame
    constructor
    · have hturns : turns st st = [] := if_pos rfl
      unfold Local.process
      rw [hphase, hturns, ite_self]
    · intro copy ok' hcopy
      rw [hphase] at hcopy
      cases hcopy
      exact hst
  · refine ⟨fun _ => ⟨before, ok, hphase, hst⟩, ?_⟩
    rintro (e | _) s' hs
    · obtain rfl := hs.trans ((if_pos rfl).trans (hsettle false))
      exact ⟨rfl, fun copy ok hcopy => nomatch hcopy⟩
    · obtain rfl := hs.trans ((if_pos rfl).trans (hsettle true))
      exact ⟨rfl, fun copy ok hcopy => nomatch hcopy⟩

theorem Local.Apart.ne_ended (h : s.Apart) : s.phase ≠ .ended := by
  rcases h with ⟨copy, hphase⟩ | ⟨unsent, hphase⟩
  · rw [hphase]
    exact nofun
  · rw [hphase]
    exact nofun

/-- What is left of a scan. -/
inductive Local.Remains (r : String) (states : Table String TargetState) (targets : List Target)
    (events : List ScanEvent) (s : Local) : Prop where
  | before (hmem : r ∈ targets.map Target.id) (hphase : s.phase = .todo (states[r]?.getD .default))
      (hnone : alertsOf r events = [])
  | behind (hmem : r ∉ targets.map Target.id) (hphase : s.phase = .processed (alertsOf r events))

theorem Local.Remains.apart {events : List ScanEvent} (h : s.Remains r states targets events) :
    s.Apart := by
  cases h with
  | before _ hphase => exact .inl ⟨_, hphase⟩
  | behind _ hphase => exact .inr ⟨_, hphase⟩

/-- Another target is done with. -/
theorem Local.Remains.skip {t : Target} {events events' : List ScanEvent}
    (h : s.Remains r states (t :: targets) events) (hid : t.id ≠ r) (hevents : alertsOf r events' = []) :
    s.Remains r (states.erase t.id) targets (events ++ events') := by
  cases h with
  | before hmem hphase hnone =>
    refine .before ?_ ?_ ?_
    · rcases List.mem_cons.mp hmem with hr | hr
      · exact absurd hr.symm hid
      · exact hr
    · rw [Table.getElem?_erase_ite, if_neg hid]
      exact hphase
    · rw [alertsOf_append, hnone, hevents]
      rfl
  | behind hmem hphase =>
    refine .behind (fun hr => hmem (List.mem_cons_of_mem _ hr)) ?_
    rw [alertsOf_append, hevents, List.append_nil]
    exact hphase

/-- A scan has failed, or its events are to be published. -/
def Local.Scanned (r : String) (s : Local) (res : Except String ScanResult) : Prop :=
  s.spawn = .tick ∧
    s.phase =
      match res with
      | .error _ => .failed
      | .ok scan => .processed (alertsOf r scan.events)

theorem obeys_scan_targets (hspawn : s.spawn = .tick) (hnodup : (targets.map Target.id).Nodup)
    (h : s.Remains r states targets scan.events) :
    Obeys (targetProtocol config.fail_threshold r)
      (fun s' res => s'.Scanned r res) s (scan_targets config states targets scan) := by
  induction targets generalizing s states scan with
  | nil =>
    cases h with
    | before hmem => cases hmem
    | behind _ hphase => exact ⟨hspawn, hphase⟩
  | cons t targets ih =>
    obtain ⟨hfresh, hnodup⟩ := List.nodup_cons.mp hnodup
    unfold scan_targets
    by_cases hid : t.id = r
    · subst hid
      obtain ⟨hphase, hnone⟩ : s.phase = .todo (states[t.id]?.getD .default) ∧
          alertsOf t.id scan.events = [] := by
        cases h with
        | before _ hphase hnone => exact ⟨hphase, hnone⟩
        | behind hmem => exact absurd List.mem_cons_self hmem
      refine ⟨(if_pos rfl).mpr ⟨_, hphase⟩, ?_⟩
      rintro a s' hs
      have hcheck : s' = { s with
          phase := .checked (states[t.id]?.getD .default) (CheckResult.of a.1 a.2).ok } := by
        refine hs.trans ((if_pos rfl).trans ?_)
        unfold Local.check
        rw [hphase]
      subst hcheck
      refine ⟨nofun, ?_⟩
      rintro (e | n) s' hs
      · obtain rfl := hs.trans (Local.move_of_tick _ _ hspawn)
        exact ⟨hspawn, rfl⟩
      obtain rfl := hs
      refine ⟨trivial, ?_⟩
      rintro now s' rfl
      refine (obeys_persist rfl advanced_advance).bind ?_
      rintro s' persisted ⟨hprocess, hcopy⟩
      refine ⟨hcopy, ?_⟩
      rintro stored s'' hs
      obtain rfl := hs.trans hprocess
      exact ih hspawn hnodup (.behind hfresh (congrArg Phase.processed (alertsOf_step hnone).symm))
    · refine ⟨(if_neg hid).mpr h.apart, ?_⟩
      rintro a s' hs
      obtain rfl := hs.trans (if_neg hid)
      refine ⟨h.apart.ne_ended, ?_⟩
      rintro (e | n) s' hs
      · obtain rfl := hs.trans (Local.move_of_tick _ _ hspawn)
        exact ⟨hspawn, rfl⟩
      obtain rfl := hs
      refine ⟨trivial, ?_⟩
      rintro now s₀ rfl
      refine (obeys_persist_of_ne hid _ _).bind ?_
      rintro s' persisted rfl
      have hprocess : s'.process = s' := by
        unfold Local.process
        rcases h.apart with ⟨copy, hphase⟩ | ⟨unsent, hphase⟩
        · rw [hphase]
        · rw [hphase]
      refine ⟨fun copy ok hcopy => ?_, ?_⟩
      · rcases h.apart with ⟨_, hphase⟩ | ⟨_, hphase⟩
        · rw [hphase] at hcopy
          cases hcopy
        · rw [hphase] at hcopy
          cases hcopy
      · rintro stored s'' hs
        obtain rfl := hs.trans hprocess
        refine ih hspawn hnodup (h.skip hid ?_)
        exact (alertsOf_stepEvents t.id persisted _).trans (if_neg fun hr => hid hr.1)

theorem obeys_publish_all {es : List ScanEvent} (hphase : s.phase = .processed (alertsOf r es)) :
    Obeys (targetProtocol threshold r)
      (fun s' _ => s'.spawn = s.spawn ∧ s'.phase = .processed []) s (publish_all es) := by
  induction es generalizing s with
  | nil => exact ⟨rfl, hphase⟩
  | cons e es ih =>
    rw [alertsOf_cons] at hphase
    by_cases he : e.target = r
    · rw [if_pos he] at hphase
      refine ⟨fun _ => ⟨_, hphase⟩, ?_⟩
      rintro a s' hs
      have hsend : s' = { s with phase := .processed (alertsOf r es) } := by
        refine hs.trans ((if_pos he).trans ?_)
        unfold Local.send
        rw [hphase]
        rfl
      subst hsend
      exact ih (s := { s with phase := .processed (alertsOf r es) }) rfl
    · rw [if_neg he] at hphase
      refine ⟨fun hr => absurd hr he, ?_⟩
      rintro a s' hs
      obtain rfl := hs.trans (if_neg he)
      exact ih hphase

theorem obeys_scan_all (hspawn : s.spawn = .tick) (hphase : s.phase = .idle) :
    Obeys (targetProtocol config.fail_threshold r)
      (fun s' res => s'.Scanned r res) s (scan_all config) := by
  unfold scan_all
  refine (obeys_list_targets hphase).bind ?_
  rintro s' (e | targets) hs
  · rw [hs, Local.move_of_tick s _ hspawn]
    exact ⟨hspawn, rfl⟩
  obtain ⟨hnodup, rfl⟩ := hs
  rw [Local.move_of_tick s _ hspawn]
  -- the states are at hand, and the targets are checked
  have hscan : ∀ states : Table String TargetState, Obeys (targetProtocol config.fail_threshold r)
      (fun s' res => s'.Scanned r res)
      { s with phase :=
          if decide (r ∈ targets.map Target.id) then .todo (states[r]?.getD .default)
          else .processed [] }
      (do
        match ← scan_targets config states targets { checked := 0, events := [] } with
        | .error e => return .error e
        | .ok scan =>
          let _ ← Db.trim_checks config.max_checks
          return .ok scan : Act (Except String ScanResult)) := by
    intro states
    refine Obeys.bind (obeys_scan_targets (by exact hspawn) hnodup ?_) ?_
    · by_cases hmem : r ∈ targets.map Target.id
      · exact .before hmem (if_pos (decide_eq_true hmem)) rfl
      · exact .behind hmem (if_neg (by simpa using hmem))
    · rintro s' (e | scan) hs
      · exact hs
      · refine (obeys_of_quiet (asks_trim_checks config.max_checks)).bind ?_
        rintro _ _ rfl
        exact hs
  unfold Db.list_states
  refine ⟨⟨_, rfl⟩, ?_⟩
  rintro (e | keys) s' hs
  · obtain rfl := hs.trans (Local.move_of_tick _ _ hspawn)
    exact ⟨hspawn, rfl⟩
  have hlist : s' = _ := hs
  unfold Local.list_states at hlist
  change s' = if keys = [] then _ else _ at hlist
  change Obeys _ _ _ ((if keys = [] then _ else _) >>= _)
  split_ifs at hlist ⊢
  · obtain rfl := hlist.trans (Local.move_of_tick _ _ hspawn)
    exact hscan ∅
  · obtain rfl := hlist.trans (Local.move_of_tick _ _ hspawn)
    refine ⟨⟨_, rfl⟩, ?_⟩
    rintro (e | states) s' hs
    · obtain rfl := hs.trans (Local.move_of_tick _ _ hspawn)
      exact ⟨hspawn, rfl⟩
    · obtain rfl := hs.trans (Local.move_of_tick _ _ hspawn)
      exact hscan states

theorem obeys_task (config : Config) (spawn : Spawn) :
    Obeys (targetProtocol config.fail_threshold r) (fun _ _ => True) (.start spawn)
      (spawn.task config) := by
  cases spawn with
  | tick =>
    refine (obeys_scan_all rfl rfl).bind ?_
    rintro s' (e | scan) ⟨hspawn, hphase⟩
    · exact ⟨⟨hspawn, .inl hphase⟩, fun _ _ _ => trivial⟩
    · refine (obeys_publish_all hphase).bind ?_
      rintro s'' - ⟨hspawn', hphase⟩
      exact ⟨⟨hspawn'.trans hspawn, .inr hphase⟩, fun _ _ _ => trivial⟩
  | request req =>
    refine (obeys_handle_action ⟨⟨req, rfl⟩, rfl⟩ rfl config req).bind ?_
    rintro s' (e | ⟨reply, event⟩) -
    · exact ⟨trivial, fun _ _ _ => trivial⟩
    · refine ⟨trivial, ?_⟩
      rintro - s' rfl
      cases event with
      | none => trivial
      | some event => exact ⟨trivial, fun _ _ _ => trivial⟩

end

end Uptime
