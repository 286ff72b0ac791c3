import Mathlib
import VynkorPlugins.Uptime.Proofs.ScanProofs

/-!
# The alerts of a target

While one scan at a time reads the states, the stored state of the target is the copy of the scan
under way, the alerts on the bus and those that the scan has still to put there alternate, and their
number is odd exactly when the stored state alerts.
-/

namespace Uptime

open Async Transition

variable {spawn : Nat → Spawn} {threshold : Nat} {r : String} {g : Nat → Local} {w w' : World}
  {i j : Nat} {s : Local} {phase phase' : Phase}

/-! ## Alternation -/

def nextAlert (alerts : List Alert) : Alert :=
  if alerts.length % 2 = 0 then .check_failed else .recovered

theorem Alternates.append {alerts : List Alert} (h : Alternates alerts) :
    Alternates (alerts ++ [nextAlert alerts]) := by
  intro n alert hn
  rw [List.getElem?_append] at hn
  split_ifs at hn with hlt
  · exact h n alert hn
  · rw [List.getElem?_singleton] at hn
    split_ifs at hn with hzero
    obtain rfl := Option.some.inj hn
    have hlength : n = alerts.length := by omega
    rw [hlength]
    rfl

theorem Alternates.of_append {alerts alerts' : List Alert} (h : Alternates (alerts ++ alerts')) :
    Alternates alerts := by
  intro n alert hn
  obtain ⟨hlt, -⟩ := List.getElem?_eq_some_iff.mp hn
  refine h n alert ?_
  rw [List.getElem?_append_left hlt]
  exact hn

/-! ## Where a scan is with the target -/

def Phase.unsent : Phase → List Alert
  | .settled unsent | .processed unsent => unsent
  | _ => []

/-- The target is still to be checked, or its check is not done with. -/
def Phase.has : Phase → Bool
  | .listed has | .keys has _ => has
  | .todo _ | .checked .. | .settled _ => true
  | _ => false

/-- The states have been read, or are being read. -/
def Phase.active : Phase → Bool
  | .keys .. | .todo _ | .checked .. | .settled _ | .processed _ => true
  | _ => false

/-- The copy of the stored state. It stays one when the state is deleted before it has alerted. -/
def CopyOf (r : String) (w : World) (copy : TargetState) : Prop :=
  w.state r = copy ∨ w.states[r]? = none ∧ copy.alerting = false

/-- The state that a scan has at hand. -/
def Phase.Holds (r : String) (w : World) : Phase → Prop
  | .keys _ ks => r ∉ ks → w.states[r]? = none
  | .todo copy => CopyOf r w copy ∧ (copy.alerting = false → copy.fail_streak ≤ w.history.fails r)
  | .checked copy ok =>
    CopyOf r w copy ∧
      (ok = false → copy.alerting = false → copy.fail_streak + 1 ≤ w.history.fails r)
  | _ => True

/-- What the history knows of the last check of a scan. -/
def Phase.LastChecked (r : String) (last : Option (String × Bool)) : Phase → Prop
  | .checked _ ok => last = some (r, ok)
  | .settled _ | .processed _ | .failed | .ended => True
  | _ => ∀ ok, last ≠ some (r, ok)

/-- The target is removed, and no scan has it still to check: its id does not come back. -/
structure World.Gone (r : String) (w : World) : Prop where
  target : w.targets[r]? = none
  to_check : w.history.to_check r = []
  drafts : w.history.drafts r = []
  issued : ∃ n ≤ w.next_target_id, toString n = r

/-- The id is stored under at most once. -/
structure Issued (r : String) (w : World) : Prop where
  single : (w.history.drafts r).length ≤ 1
  drafts : w.history.drafts r ≠ [] → ∃ n ≤ w.next_target_id, toString n = r
  stored : (w.targets[r]? ≠ none ∨ w.states[r]? ≠ none ∨ w.history.to_check r ≠ []) →
    w.history.drafts r = [] ∧ ∃ n ≤ w.next_target_id, toString n = r

/-- What a task is known to have done with the target. -/
structure Known (spawn : Nat → Spawn) (r : String) (i : Nat) (s : Local) (h : History) : Prop where
  spawn : s.spawn = spawn i
  drawn : s.drawn = true → i ∈ h.drafts r
  to_check : s.phase.has = true → i ∈ h.to_check r
  scanning : s.phase.active = true → i ∈ h.scanning
  checked : s.phase.LastChecked r (h.checked i)
  sent : h.alerted r i ++ s.phase.unsent = (h.turned r i).map Prod.fst
  ended : i ∈ h.ended → s.phase = .ended

/-- The stored state of the target and its alerts, when the scan under way is in a phase. -/
structure Tracked (r : String) (phase : Phase) (w : World) : Prop where
  alternate : Alternates (w.history.bus r ++ phase.unsent)
  parity : w.Gone r ∨
    ((w.history.bus r ++ phase.unsent).length % 2 = 1 ↔ (w.state r).alerting = true)
  streak : (∀ copy, phase ≠ .checked copy true) → (w.state r).alerting = false →
    (w.state r).fail_streak ≤ w.history.fails r
  holds : phase.Holds r w

/-- The phase of the scan under way. -/
def current (g : Nat → Local) : List Nat → Phase
  | [] => .idle
  | i :: _ => (g i).phase

structure Inv (spawn : Nat → Spawn) (threshold : Nat) (r : String) (g : Nat → Local) (w : World) :
    Prop where
  known : ∀ i, Known spawn r i (g i) w.history
  single : w.history.scanning.length ≤ 1
  issued : Issued r w
  tracked : Tracked r (current g w.history.scanning) w
  outage : ∀ i, ∀ t ∈ w.history.turned r i, t.1 = .check_failed → threshold ≤ t.2

/-! ## Other tasks -/

/-- What the history tells of a task is kept. -/
structure History.Keeps (r : String) (j : Nat) (h h' : History) : Prop where
  drafts : j ∈ h.drafts r → j ∈ h'.drafts r
  to_check : j ∈ h.to_check r → j ∈ h'.to_check r
  scanning : j ∈ h.scanning → j ∈ h'.scanning
  checked : h'.checked j = h.checked j
  alerted : h'.alerted r j = h.alerted r j
  turned : h'.turned r j = h.turned r j
  ended : j ∈ h'.ended → j ∈ h.ended

theorem History.Keeps.refl (h : History) : h.Keeps r j h :=
  ⟨id, id, id, rfl, rfl, rfl, id⟩

theorem Known.of_keeps {h h' : History} (hk : Known spawn r j s h) (hkeeps : h.Keeps r j h') :
    Known spawn r j s h' where
  spawn := hk.spawn
  drawn hs := hkeeps.drafts (hk.drawn hs)
  to_check hs := hkeeps.to_check (hk.to_check hs)
  scanning hs := hkeeps.scanning (hk.scanning hs)
  checked := by
    rw [hkeeps.checked]
    exact hk.checked
  sent := by
    rw [hkeeps.alerted, hkeeps.turned]
    exact hk.sent
  ended hj := hk.ended (hkeeps.ended hj)

section

variable (h : History)

theorem mem_update_of_mem {f : String → List Nat} {id : String} {l : List Nat}
    (hl : j ∈ f id → j ∈ l) (hj : j ∈ f r) : j ∈ Function.update f id l r := by
  by_cases hid : r = id
  · subst hid
    rw [Function.update_self]
    exact hl hj
  · rw [Function.update_of_ne hid]
    exact hj

theorem update_update_of_ne {β : Type} {f : String → Nat → β} {id : String} {b : β} (hj : j ≠ i) :
    Function.update f id (Function.update (f id) i b) r j = f r j := by
  by_cases hid : r = id
  · subst hid
    rw [Function.update_self, Function.update_of_ne hj]
  · rw [Function.update_of_ne hid]

theorem keeps_draw (id : String) : h.Keeps r j (h.draw i id) :=
  { History.Keeps.refl h with drafts := mem_update_of_mem (List.mem_cons_of_mem i) }

theorem keeps_draft_done (hj : j ≠ i) (id : String) : h.Keeps r j (h.draft_done i id) :=
  { History.Keeps.refl h with drafts := mem_update_of_mem (List.mem_erase_of_ne hj).mpr }

theorem keeps_list_targets (targets : List Target) (spawn : Spawn) :
    h.Keeps r j (h.list_targets i targets spawn) := by
  cases spawn with
  | request req => exact .refl h
  | tick =>
    refine { History.Keeps.refl h with to_check := fun hj => ?_ }
    change j ∈ if _ then _ else _
    split_ifs
    · exact List.mem_cons_of_mem i hj
    · exact hj

theorem keeps_list_states (spawn : Spawn) : h.Keeps r j (h.list_states i spawn) := by
  cases spawn with
  | request req => exact .refl h
  | tick => exact { History.Keeps.refl h with scanning := List.mem_cons_of_mem i }

theorem keeps_check (hj : j ≠ i) (id : String) (ok : Bool) : h.Keeps r j (h.check i id ok) :=
  { History.Keeps.refl h with checked := Function.update_of_ne hj _ _ }

theorem keeps_check_done (hj : j ≠ i) (last : Option (String × Bool)) :
    h.Keeps r j (h.check_done i last) := by
  cases last with
  | none => exact .refl h
  | some last =>
    exact { History.Keeps.refl h with to_check := mem_update_of_mem (List.mem_erase_of_ne hj).mpr }

theorem keeps_turn (hj : j ≠ i) (id : String) (before after : Bool) :
    h.Keeps r j (h.turn i id before after) := by
  unfold History.turn
  by_cases hsame : before = after
  · rw [if_pos hsame]
    exact .refl h
  · rw [if_neg hsame]
    exact { History.Keeps.refl h with turned := update_update_of_ne hj }

theorem keeps_put_alert (hj : j ≠ i) (id : String) (alert : Alert) :
    h.Keeps r j (h.put_alert i id alert) :=
  { History.Keeps.refl h with alerted := update_update_of_ne hj }

theorem keeps_end_scan (hj : j ≠ i) : h.Keeps r j (h.end_scan i) :=
  { History.Keeps.refl h with
    to_check := (List.mem_erase_of_ne hj).mpr
    scanning := (List.mem_erase_of_ne hj).mpr
    ended := fun hended => (List.mem_cons.mp hended).resolve_left hj }

end

theorem call_of_none {α : Type} (h : w.failure = none) (a : α) (w₁ : World) :
    w.call a w₁ = (.ok a, w₁) := by
  unfold World.call
  rw [h]

theorem call_of_some {α : Type} {e : String} (h : w.failure = some e) (a : α) (w₁ : World) :
    w.call a w₁ = (.error e, w) := by
  unfold World.call
  rw [h]

theorem keeps_call {α : Type} {a : α} {w₁ : World} (h : w.history.Keeps r j w₁.history) :
    w.history.Keeps r j (w.call a w₁).2.history := by
  cases hfail : w.failure with
  | none =>
    rw [call_of_none hfail]
    exact h
  | some e =>
    rw [call_of_some hfail]
    exact .refl _

/-- An effect of one task keeps what the history tells of another one. -/
theorem keeps_serve (hj : j ≠ i) (spawn : Spawn) (e : Eff) (w : World) :
    w.history.Keeps r j (w.serve spawn i e).2.history := by
  cases e with
  | now => exact .refl _
  | db_keys space =>
    cases space with
    | target => exact keeps_call (.refl _)
    | check => exact keeps_call (.refl _)
    | state => exact keeps_call (keeps_list_states w.history spawn)
  | get_targets keys => exact keeps_call (keeps_list_targets w.history _ spawn)
  | get_states keys => exact keeps_call (.refl _)
  | get_checks keys => exact keeps_call (.refl _)
  | db_incr counter =>
    cases counter with
    | next_target_id => exact keeps_call (keeps_draw w.history _)
    | next_check_id => exact keeps_call (.refl _)
  | put_target t => exact keeps_draft_done w.history hj t.id
  | delete_target id => exact keeps_call (.refl _)
  | put_state id st => exact keeps_call (keeps_turn w.history hj id _ _)
  | delete_state id => exact keeps_call (.refl _)
  | put_check c => exact keeps_check_done w.history hj _
  | delete_check id => exact keeps_call (.refl _)
  | http_request target url timeout_ms =>
    cases target with
    | none => exact .refl _
    | some id => exact keeps_check w.history hj id _
  | alert id alert payload => exact keeps_put_alert w.history hj id alert
  | publish event_type payload => exact .refl _
  | reply result => exact .refl _
  | ended => exact keeps_end_scan w.history hj

/-! ## Steps -/

theorem current_eq (hsingle : w.history.scanning.length ≤ 1) (hi : i ∈ w.history.scanning) :
    w.history.scanning = [i] := by
  match hscanning : w.history.scanning with
  | [] =>
    rw [hscanning] at hi
    cases hi
  | [k] =>
    rw [hscanning] at hi
    rw [List.mem_singleton.mp hi]
  | k :: k' :: rest =>
    rw [hscanning] at hsingle
    simp at hsingle

theorem current_update_of_not_mem {scanning : List Nat} (hi : i ∉ scanning) :
    current (Function.update g i s) scanning = current g scanning := by
  cases scanning with
  | nil => rfl
  | cons k rest =>
    have hk : k ≠ i := fun hk => hi (hk ▸ List.mem_cons_self)
    exact congrArg Local.phase (Function.update_of_ne hk _ _)

theorem current_update_self : current (Function.update g i s) [i] = s.phase :=
  congrArg Local.phase (Function.update_self i s g)

theorem has_current {h : History} (hknown : ∀ i, Known spawn r i (g i) h) {scanning : List Nat}
    (hhas : (current g scanning).has = true) : h.to_check r ≠ [] := by
  cases scanning with
  | nil => cases hhas
  | cons k rest => exact List.ne_nil_of_mem ((hknown k).to_check hhas)

/-- An effect of a task while no scan begins or ends to read the states. -/
theorem Inv.act {e : Eff} {a : e.Answer} (h : Inv spawn threshold r g w) (hw : Handle spawn i w e a w')
    (hknown : Known spawn r i s w'.history) (hscanning : w'.history.scanning = w.history.scanning)
    (hissued : Issued r w')
    (hothers : ∀ phase, (phase.has = true → w.history.to_check r ≠ []) → i ∉ w.history.scanning →
      Tracked r phase w → Tracked r phase w')
    (hself : Tracked r (g i).phase w → Tracked r s.phase w')
    (houtage : ∀ t ∈ w'.history.turned r i, t.1 = .check_failed → threshold ≤ t.2) :
    Inv spawn threshold r (Function.update g i s) w' := by
  have hkeeps : ∀ j, j ≠ i → w.history.Keeps r j w'.history := by
    intro j hj
    have hserve := keeps_serve (r := r) hj (spawn i) e w
    rw [show w.serve (spawn i) i e = (a, w') from hw] at hserve
    exact hserve
  refine ⟨fun j => ?_, ?_, hissued, ?_, fun j => ?_⟩
  · by_cases hj : j = i
    · subst hj
      rw [Function.update_self]
      exact hknown
    · rw [Function.update_of_ne hj]
      exact (h.known j).of_keeps (hkeeps j hj)
  · rw [hscanning]
    exact h.single
  · rw [hscanning]
    by_cases hi : i ∈ w.history.scanning
    · have htracked := h.tracked
      rw [current_eq h.single hi] at htracked ⊢
      rw [current_update_self]
      exact hself htracked
    · rw [current_update_of_not_mem hi]
      exact hothers _ (has_current h.known) hi h.tracked
  · by_cases hj : j = i
    · subst hj
      exact houtage
    · rw [(hkeeps j hj).turned]
      exact h.outage j

/-- The world changes without regard to the target. -/
structure Same (r : String) (w w' : World) : Prop where
  states : w'.states[r]? = w.states[r]?
  bus : w'.history.bus r = w.history.bus r
  fails : w'.history.fails r = w.history.fails r
  gone : w.Gone r → w'.Gone r

theorem Same.state (h : Same r w w') : w'.state r = w.state r := by
  unfold World.state
  rw [h.states]

theorem Same.holds (h : Same r w w') (hp : phase.Holds r w) : phase.Holds r w' := by
  unfold Phase.Holds CopyOf at hp ⊢
  rw [h.states, h.state, h.fails]
  exact hp

theorem Tracked.congr (ht : Tracked r phase w) (h : Same r w w') : Tracked r phase w' := by
  refine ⟨?_, ?_, ?_, h.holds ht.holds⟩
  · rw [h.bus]
    exact ht.alternate
  · rw [h.bus, h.state]
    exact ht.parity.imp_left h.gone
  · rw [h.state, h.fails]
    exact ht.streak

/-- The scan moves on, and the world is as it was for the target. -/
theorem Tracked.move (ht : Tracked r phase w) (hunsent : phase'.unsent = phase.unsent)
    (hstreak : ∀ copy, phase = .checked copy true → (w.state r).alerting = false →
      (w.state r).fail_streak ≤ w.history.fails r)
    (hholds : phase'.Holds r w) : Tracked r phase' w := by
  refine ⟨?_, ?_, fun _ => ?_, hholds⟩
  · rw [hunsent]
    exact ht.alternate
  · rw [hunsent]
    exact ht.parity
  · by_cases hchecked : ∃ copy, phase = .checked copy true
    · obtain ⟨copy, hchecked⟩ := hchecked
      exact hstreak copy hchecked
    · exact ht.streak fun copy hcopy => hchecked ⟨copy, hcopy⟩

/-- The task stays where it is, and nothing is stored for the target. -/
theorem Inv.stay {e : Eff} {a : e.Answer} (h : Inv spawn threshold r g w) (hw : Handle spawn i w e a w')
    (hhistory : w'.history = w.history) (hstates : w'.states[r]? = w.states[r]?)
    (htargets : w'.targets[r]? ≠ none → w.targets[r]? ≠ none)
    (hnext : w'.next_target_id = w.next_target_id) :
    Inv spawn threshold r (Function.update g i (g i)) w' := by
  have hsame : Same r w w' := by
    refine ⟨hstates, ?_, ?_, fun hgone => ⟨?_, ?_, ?_, ?_⟩⟩
    · rw [hhistory]
    · rw [hhistory]
    · exact not_not.mp fun hsome => htargets hsome hgone.target
    · rw [hhistory]
      exact hgone.to_check
    · rw [hhistory]
      exact hgone.drafts
    · rw [hnext]
      exact hgone.issued
  refine h.act hw ?_ ?_ ⟨?_, ?_, ?_⟩ (fun _ _ _ ht => ht.congr hsame) (fun ht => ht.congr hsame) ?_
  · rw [hhistory]
    exact h.known i
  · rw [hhistory]
  · rw [hhistory]
    exact h.issued.single
  · rw [hhistory, hnext]
    exact h.issued.drafts
  · rw [hhistory, hnext, hstates]
    exact fun hstored => h.issued.stored (hstored.imp_left htargets)
  · rw [hhistory]
    exact h.outage i

/-- The task moves on, and nothing happens in the world. -/
theorem Inv.go {e : Eff} {a : e.Answer} (h : Inv spawn threshold r g w) (hw : Handle spawn i w e a w)
    (hknown : Known spawn r i s w.history)
    (hself : Tracked r (g i).phase w → Tracked r s.phase w) :
    Inv spawn threshold r (Function.update g i s) w :=
  h.act hw hknown rfl h.issued (fun _ _ _ ht => ht) hself (h.outage i)

theorem Local.move_of_request {req : UptimeRequest} (hs : s.spawn = .request req) (phase : Phase) :
    s.move phase = s := by
  unfold Local.move
  rw [hs]

/-- A scan fails. -/
theorem Inv.fail {e : Eff} {a : e.Answer} (h : Inv spawn threshold r g w) (hw : Handle spawn i w e a w)
    (hended : (g i).phase ≠ .ended) (hunsent : spawn i = .tick → (g i).phase.unsent = [])
    (hstreak : spawn i = .tick → ∀ copy, (g i).phase = .checked copy true →
      (w.state r).alerting = false → (w.state r).fail_streak ≤ w.history.fails r) :
    Inv spawn threshold r (Function.update g i ((g i).move .failed)) w := by
  have hk := h.known i
  cases hs : spawn i with
  | request req =>
    rw [Local.move_of_request (hk.spawn.trans hs)]
    exact h.go hw hk id
  | tick =>
    rw [Local.move_of_tick _ _ (hk.spawn.trans hs)]
    refine h.go hw ?_ fun ht => ht.move (hunsent hs).symm (hstreak hs) trivial
    refine ⟨hk.spawn, hk.drawn, nofun, nofun, trivial, ?_, fun hi => absurd (hk.ended hi) hended⟩
    have hsent := hk.sent
    rw [hunsent hs] at hsent
    exact hsent

/-- A scan that has not read the states moves on. -/
theorem Inv.list {e : Eff} {a : e.Answer} {has : Bool} (h : Inv spawn threshold r g w)
    (hw : Handle spawn i w e a w') (hphase : (g i).phase = .idle)
    (hhas : spawn i = .tick → has = true → i ∈ w'.history.to_check r)
    (hkeeps : w.history.Keeps r i w'.history) (hscanning : w'.history.scanning = w.history.scanning)
    (hissued : Issued r w') (hsame : Same r w w') :
    Inv spawn threshold r (Function.update g i ((g i).move (.listed has))) w' := by
  have hk := (h.known i).of_keeps hkeeps
  have houtage : ∀ t ∈ w'.history.turned r i, t.1 = .check_failed → threshold ≤ t.2 := by
    rw [hkeeps.turned]
    exact h.outage i
  cases hs : spawn i with
  | request req =>
    rw [Local.move_of_request (hk.spawn.trans hs)]
    exact h.act hw hk hscanning hissued (fun _ _ _ ht => ht.congr hsame) (fun ht => ht.congr hsame) houtage
  | tick =>
    rw [Local.move_of_tick _ _ (hk.spawn.trans hs)]
    refine h.act hw ?_ hscanning hissued (fun _ _ _ ht => ht.congr hsame) (fun ht => ?_) houtage
    · have hsent := hk.sent
      have hchecked := hk.checked
      have hended := hk.ended
      rw [hphase] at hsent hchecked hended
      exact ⟨hk.spawn, hk.drawn, hhas hs, nofun, hchecked, hsent, fun hi => nomatch hended hi⟩
    · rw [hphase] at ht
      exact (ht.congr hsame).move rfl nofun trivial

/-! ## The target is stored -/

theorem stored_of_mem_rows {keys : List String} (hr : r ∈ (w.target_rows keys).map Target.id) :
    w.targets[r]? ≠ none := by
  obtain ⟨t, ht, rfl⟩ := List.mem_map.mp hr
  obtain ⟨⟨id, t⟩, hrow, rfl⟩ := List.mem_map.mp ht
  obtain ⟨hstored, -⟩ := Table.mem_selectWhere.mp hrow
  change w.targets[t.id]? ≠ none
  rw [w.keyed id t hstored, hstored]
  exact nofun

theorem nodup_target_rows (w : World) (keys : List String) :
    ((w.target_rows keys).map Target.id).Nodup := by
  have hids : (w.target_rows keys).map Target.id =
      (w.targets.selectWhere fun id _ => id ∈ keys).map Prod.fst := by
    unfold World.target_rows
    rw [List.map_map]
    refine List.map_congr_left fun row hrow => ?_
    obtain ⟨id, t⟩ := row
    exact w.keyed id t (Table.mem_selectWhere.mp hrow).1
  rw [hids]
  exact Table.nodup_selectWhere _ _

/-- A scan lists the targets. -/
theorem Inv.get_targets {e : Eff} {a : e.Answer} {keys : List String}
    (h : Inv spawn threshold r g w) (hw : Handle spawn i w e a { w with
      history := w.history.list_targets i (w.target_rows keys) (spawn i) })
    (hphase : (g i).phase = .idle) :
    Inv spawn threshold r
      (Function.update g i ((g i).move (.listed (r ∈ (w.target_rows keys).map Target.id))))
      { w with history := w.history.list_targets i (w.target_rows keys) (spawn i) } := by
  cases hs : spawn i with
  | request req =>
    rw [hs] at hw
    refine h.list hw hphase (fun htick => ?_) (.refl _) rfl h.issued ⟨rfl, rfl, rfl, id⟩
    rw [hs] at htick
    cases htick
  | tick =>
    rw [hs] at hw
    have hto_check : (w.history.list_targets i (w.target_rows keys) .tick).to_check r =
        if r ∈ (w.target_rows keys).map Target.id then i :: w.history.to_check r
        else w.history.to_check r := rfl
    refine h.list hw hphase (fun _ hhas => ?_) (keeps_list_targets w.history _ .tick) rfl ⟨h.issued.single,
      h.issued.drafts, ?_⟩ ⟨rfl, rfl, rfl, fun hgone => ⟨hgone.target, ?_, hgone.drafts, hgone.issued⟩⟩
    · change i ∈ (w.history.list_targets i (w.target_rows keys) .tick).to_check r
      rw [hto_check, if_pos (of_decide_eq_true hhas)]
      exact List.mem_cons_self
    · rintro (htarget | hstate | hlisted)
      · exact h.issued.stored (.inl htarget)
      · exact h.issued.stored (.inr (.inl hstate))
      · change (w.history.list_targets i (w.target_rows keys) .tick).to_check r ≠ [] at hlisted
        rw [hto_check] at hlisted
        split_ifs at hlisted with hr
        · exact h.issued.stored (.inl (stored_of_mem_rows hr))
        · exact h.issued.stored (.inr (.inr hlisted))
    · change (w.history.list_targets i (w.target_rows keys) .tick).to_check r = []
      rw [hto_check, if_neg fun hr => stored_of_mem_rows hr hgone.target]
      exact hgone.to_check

/-- A request has an id for a new target. -/
theorem Inv.draw {e : Eff} {a : e.Answer} (h : Inv spawn threshold r g w)
    (hw : Handle spawn i w e a { w with
      next_target_id := w.next_target_id + 1
      history := w.history.draw i (toString (w.next_target_id + 1)) }) :
    Inv spawn threshold r
      (Function.update g i { g i with drawn := toString (w.next_target_id + 1) = r })
      { w with
        next_target_id := w.next_target_id + 1
        history := w.history.draw i (toString (w.next_target_id + 1)) } := by
  have hk := (h.known i).of_keeps (keeps_draw (i := i) w.history (toString (w.next_target_id + 1)))
  by_cases hid : toString (w.next_target_id + 1) = r
  · -- the id is new
    have hfresh : ¬ ∃ n ≤ w.next_target_id, toString n = r := by
      rintro ⟨n, hn, hr⟩
      have heq : n = w.next_target_id + 1 := Nat.repr_injective (hr.trans hid.symm)
      omega
    have hdrafts : w.history.drafts r = [] := by
      by_contra hne
      exact hfresh (h.issued.drafts hne)
    have hdraw : (w.history.draw i (toString (w.next_target_id + 1))).drafts r = [i] := by
      unfold History.draw
      rw [hid]
      dsimp only
      rw [Function.update_self, hdrafts]
    have hsame : Same r w { w with
        next_target_id := w.next_target_id + 1
        history := w.history.draw i (toString (w.next_target_id + 1)) } :=
      ⟨rfl, rfl, rfl, fun hgone => absurd hgone.issued hfresh⟩
    refine h.act hw { hk with drawn := fun _ => ?_ } rfl ⟨?_, fun _ => ⟨_, Nat.le_refl _, hid⟩, ?_⟩
      (fun _ _ _ ht => ht.congr hsame) (fun ht => ht.congr hsame) (h.outage i)
    · rw [hdraw]
      exact List.mem_singleton_self i
    · exact Nat.le_of_eq (congrArg List.length hdraw)
    · exact fun hstored => absurd (h.issued.stored hstored).2 hfresh
  · have hdraw : (w.history.draw i (toString (w.next_target_id + 1))).drafts r = w.history.drafts r :=
      Function.update_of_ne (Ne.symm hid) _ _
    have hissued : (∃ n ≤ w.next_target_id, toString n = r) →
        ∃ n ≤ w.next_target_id + 1, toString n = r := by
      rintro ⟨n, hn, hr⟩
      exact ⟨n, Nat.le_succ_of_le hn, hr⟩
    have hsame : Same r w { w with
        next_target_id := w.next_target_id + 1
        history := w.history.draw i (toString (w.next_target_id + 1)) } := by
      refine ⟨rfl, rfl, rfl, fun hgone => ⟨hgone.target, hgone.to_check, ?_, hissued hgone.issued⟩⟩
      exact hdraw.trans hgone.drafts
    refine h.act hw { hk with drawn := fun hdrawn => absurd (of_decide_eq_true hdrawn) hid } rfl
      ⟨?_, ?_, ?_⟩ (fun _ _ _ ht => ht.congr hsame) (fun ht => ht.congr hsame) (h.outage i)
    · rw [hdraw]
      exact h.issued.single
    · rw [hdraw]
      exact fun hne => hissued (h.issued.drafts hne)
    · rw [hdraw]
      exact fun hstored => (h.issued.stored hstored).imp_right hissued

/-- A request is done with the id it has drawn. -/
theorem Inv.put_target {e : Eff} {a : e.Answer} {t : Target} (h : Inv spawn threshold r g w)
    (hw : Handle spawn i w e a { w' with history := w.history.draft_done i t.id })
    (hallowed : t.id = r → (g i).drawn = true)
    (htargets : t.id ≠ r → w'.targets[r]? = w.targets[r]?) (hstates : w'.states = w.states)
    (hnext : w'.next_target_id = w.next_target_id) :
    Inv spawn threshold r
      (Function.update g i (if t.id = r then { g i with drawn := false } else g i))
      { w' with history := w.history.draft_done i t.id } := by
  have hk := h.known i
  by_cases hid : t.id = r
  · subst hid
    rw [if_pos rfl]
    have hi : i ∈ w.history.drafts t.id := hk.drawn (hallowed rfl)
    have hdrafts : w.history.drafts t.id = [i] := by
      obtain ⟨k, hk⟩ := List.length_eq_one_iff.mp
        (Nat.le_antisymm h.issued.single (List.length_pos_of_mem hi))
      rw [hk] at hi ⊢
      rw [List.mem_singleton.mp hi]
    have hdone : (w.history.draft_done i t.id).drafts t.id = [] := by
      unfold History.draft_done
      dsimp only
      rw [Function.update_self, hdrafts, List.erase_cons_head]
    have hsame : Same t.id w { w' with history := w.history.draft_done i t.id } := by
      refine ⟨congrArg (·[t.id]?) hstates, rfl, rfl, fun hgone => ?_⟩
      rw [hgone.drafts] at hi
      cases hi
    refine h.act hw { hk with drawn := nofun } rfl ⟨?_, fun hne => absurd hdone hne, fun _ => ⟨hdone, ?_⟩⟩
      (fun _ _ _ ht => ht.congr hsame) (fun ht => ht.congr hsame) (h.outage i)
    · rw [hdone]
      exact Nat.zero_le 1
    · change ∃ n ≤ w'.next_target_id, toString n = t.id
      rw [hnext]
      exact h.issued.drafts (List.ne_nil_of_mem hi)
  · rw [if_neg hid]
    have hdone : (w.history.draft_done i t.id).drafts r = w.history.drafts r :=
      Function.update_of_ne (Ne.symm hid) _ _
    have hsame : Same r w { w' with history := w.history.draft_done i t.id } := by
      refine ⟨congrArg (·[r]?) hstates, rfl, rfl, fun hgone => ⟨?_, hgone.to_check, ?_, ?_⟩⟩
      · exact (htargets hid).trans hgone.target
      · exact hdone.trans hgone.drafts
      · change ∃ n ≤ w'.next_target_id, toString n = r
        rw [hnext]
        exact hgone.issued
    refine h.act hw ?_ rfl ⟨?_, ?_, ?_⟩ (fun _ _ _ ht => ht.congr hsame) (fun ht => ht.congr hsame)
      (h.outage i)
    · refine { hk with drawn := fun hdrawn => ?_ }
      rw [hdone]
      exact hk.drawn hdrawn
    · rw [hdone]
      exact h.issued.single
    · rw [hdone, hnext]
      exact h.issued.drafts
    · rw [hdone, hnext, htargets hid, hstates]
      exact h.issued.stored

/-! ## The state is read -/

theorem state_of_none (h : w.states[r]? = none) : w.state r = .default := by
  unfold World.state
  rw [h]
  rfl

theorem CopyOf.alerting {copy : TargetState} (h : CopyOf r w copy) :
    (w.state r).alerting = copy.alerting := by
  rcases h with rfl | ⟨hnone, hoff⟩
  · rfl
  · rw [state_of_none hnone, hoff]
    rfl

/-- What a scan goes on to once it has the states. -/
def readPhase (has : Bool) (copy : TargetState) : Phase :=
  if has then .todo copy else .processed []

theorem readPhase_unsent (has : Bool) (copy : TargetState) : (readPhase has copy).unsent = [] := by
  unfold readPhase
  split_ifs <;> rfl

/-- A copy that has just been made. -/
theorem holds_readPhase {has : Bool} {copy : TargetState} (hcopy : w.state r = copy)
    (hstreak : copy.alerting = false → copy.fail_streak ≤ w.history.fails r) :
    (readPhase has copy).Holds r w := by
  unfold readPhase
  split_ifs
  · exact ⟨.inl hcopy, hstreak⟩
  · trivial

theorem Known.read {has : Bool} {copy : TargetState} {h : History} (hk : Known spawn r i s h)
    (hhas : s.phase.has = has) (hscanning : i ∈ h.scanning) (hunsent : s.phase.unsent = [])
    (hchecked : ∀ ok, h.checked i ≠ some (r, ok)) (hended : s.phase ≠ .ended) :
    Known spawn r i { s with phase := readPhase has copy } h := by
  have hsent := hk.sent
  rw [hunsent] at hsent
  refine ⟨hk.spawn, hk.drawn, ?_, fun _ => hscanning, ?_, ?_, fun hi => absurd (hk.ended hi) hended⟩
  · cases has with
    | true => exact fun _ => hk.to_check hhas
    | false => exact nofun
  · cases has with
    | true => exact hchecked
    | false => trivial
  · change _ ++ (readPhase has copy).unsent = _
    rw [readPhase_unsent]
    exact hsent

theorem Local.list_states_of_tick {has : Bool} {keys : List String} (hs : s.spawn = .tick)
    (hphase : s.phase = .listed has) : s.list_states keys =
      { s with phase := if keys = [] then readPhase has .default else .keys has keys } := by
  unfold Local.list_states
  rw [hphase]
  dsimp only
  by_cases hkeys : keys = []
  · rw [if_pos hkeys, if_pos hkeys]
    exact Local.move_of_tick _ _ hs
  · rw [if_neg hkeys, if_neg hkeys]
    exact Local.move_of_tick _ _ hs

theorem Local.list_states_of_request {req : UptimeRequest} (hs : s.spawn = .request req)
    (keys : List String) : s.list_states keys = s := by
  unfold Local.list_states
  split
  · split_ifs
    · exact Local.move_of_request hs _
    · exact Local.move_of_request hs _
  · rfl

/-- A scan begins to read the states. -/
theorem Inv.list_states {has : Bool} (h : Inv spawn threshold r g w) (hs : spawn i = .tick)
    (hphase : (g i).phase = .listed has) (hfree : w.history.scanning = []) :
    Inv spawn threshold r (Function.update g i ((g i).list_states w.states.keys))
      { w with history := w.history.list_states i .tick } := by
  have hk := (h.known i).of_keeps (keeps_list_states w.history (i := i) .tick)
  have hsame : Same r w { w with history := w.history.list_states i .tick } :=
    ⟨rfl, rfl, rfl, fun hgone => ⟨hgone.target, hgone.to_check, hgone.drafts, hgone.issued⟩⟩
  have hscanning : (w.history.list_states i .tick).scanning = [i] :=
    congrArg (i :: ·) hfree
  have hi : i ∈ (w.history.list_states i .tick).scanning := by
    rw [hscanning]
    exact List.mem_singleton_self i
  have hnone : r ∉ w.states.keys → w.states[r]? = none := by
    intro hr
    rw [Std.ExtTreeMap.mem_keys] at hr
    exact Std.ExtTreeMap.getElem?_eq_none hr
  have hended : (g i).phase ≠ .ended := by
    rw [hphase]
    exact nofun
  have hchecked := hk.checked
  have hunsent : (g i).phase.unsent = [] := by
    rw [hphase]
    rfl
  rw [hphase] at hchecked
  rw [Local.list_states_of_tick (hk.spawn.trans hs) hphase]
  refine ⟨fun j => ?_, Nat.le_of_eq (congrArg List.length hscanning),
    ⟨h.issued.single, h.issued.drafts, h.issued.stored⟩, ?_, h.outage⟩
  · by_cases hj : j = i
    · subst hj
      rw [Function.update_self]
      by_cases hkeys : w.states.keys = []
      · rw [if_pos hkeys]
        exact hk.read (congrArg Phase.has hphase) hi hunsent hchecked hended
      · rw [if_neg hkeys]
        have hto_check := hk.to_check
        have hsent := hk.sent
        rw [hphase] at hto_check hsent
        exact ⟨hk.spawn, hk.drawn, hto_check, fun _ => hi, hchecked, hsent,
          fun hj => absurd (hk.ended hj) hended⟩
    · rw [Function.update_of_ne hj]
      exact (h.known j).of_keeps (keeps_list_states w.history .tick)
  · change Tracked r (current _ (w.history.list_states i .tick).scanning) _
    rw [hscanning, current_update_self]
    have htracked := h.tracked
    rw [hfree] at htracked
    refine (htracked.congr hsame).move ?_ nofun ?_
    · by_cases hkeys : w.states.keys = []
      · rw [if_pos hkeys]
        exact readPhase_unsent has .default
      · rw [if_neg hkeys]
        rfl
    · by_cases hkeys : w.states.keys = []
      · rw [if_pos hkeys]
        refine holds_readPhase (state_of_none (hnone ?_)) fun _ => Nat.zero_le _
        rw [hkeys]
        exact List.not_mem_nil
      · rw [if_neg hkeys]
        exact hnone

/-- A scan has read the states. -/
theorem Inv.get_states {e : Eff} {a : e.Answer} {has : Bool} {keys : List String}
    (h : Inv spawn threshold r g w) (hw : Handle spawn i w e a w)
    (hphase : (g i).phase = .keys has keys) :
    Inv spawn threshold r
      (Function.update g i ((g i).get_states ((w.state_rows keys)[r]?.getD .default))) w := by
  have hk := h.known i
  have hget : (g i).get_states ((w.state_rows keys)[r]?.getD .default) =
      (g i).move (readPhase has ((w.state_rows keys)[r]?.getD .default)) := by
    unfold Local.get_states
    rw [hphase]
    rfl
  rw [hget]
  cases hs : spawn i with
  | request req =>
    rw [Local.move_of_request (hk.spawn.trans hs)]
    exact h.go hw hk id
  | tick =>
    rw [Local.move_of_tick _ _ (hk.spawn.trans hs)]
    have hchecked := hk.checked
    have hunsent : (g i).phase.unsent = [] := by
      rw [hphase]
      rfl
    have hended : (g i).phase ≠ .ended := by
      rw [hphase]
      exact nofun
    have hi : i ∈ w.history.scanning := hk.scanning (congrArg Phase.active hphase)
    rw [hphase] at hchecked
    refine h.go hw (hk.read (congrArg Phase.has hphase) hi hunsent hchecked hended) fun ht => ?_
    rw [hphase] at ht
    have hcopy : w.state r = (w.state_rows keys)[r]?.getD .default := by
      unfold World.state World.state_rows
      rw [Std.ExtTreeMap.getElem?_filter']
      by_cases hr : r ∈ keys
      · cases w.states[r]? with
        | none => rfl
        | some st => rw [Option.filter_some, if_pos (decide_eq_true hr)]
      · rw [ht.holds hr]
        rfl
    refine ht.move (readPhase_unsent _ _) nofun (holds_readPhase hcopy fun hoff => ?_)
    rw [← hcopy] at hoff ⊢
    exact ht.streak nofun hoff

/-! ## The state is stored -/

/-- A state that is stored over its copy makes the next alert. -/
theorem turns_eq {alerts : List Alert} {before after : TargetState}
    (hparity : alerts.length % 2 = 1 ↔ before.alerting = true) :
    turns before after = if before.alerting = after.alerting then [] else [nextAlert alerts] := by
  unfold turns nextAlert
  split_ifs with hsame hon heven heven
  · rfl
  · rfl
  · exact absurd (hparity.mp (by omega)) fun hoff => hsame (hoff.trans hon.symm)
  · have hoff : before.alerting = false := by
      cases hbefore : before.alerting with
      | true =>
        have hodd := hparity.mpr hbefore
        omega
      | false => rfl
    exact absurd (hoff.trans (Bool.not_eq_true _ ▸ hon).symm) hsame
  · rfl

theorem parity_turns {alerts : List Alert} {before after : TargetState}
    (hparity : alerts.length % 2 = 1 ↔ before.alerting = true) :
    (alerts ++ turns before after).length % 2 = 1 ↔ after.alerting = true := by
  rw [turns_eq hparity]
  split_ifs with hsame
  · rw [List.append_nil, ← hsame]
    exact hparity
  · rw [List.length_append, List.length_singleton]
    cases hafter : after.alerting with
    | true =>
      have hbefore : ¬ before.alerting = true := fun hon => hsame (hon.trans hafter.symm)
      have heven := mt hparity.mp hbefore
      simp only [iff_true]
      omega
    | false =>
      have hbefore : before.alerting = true := by
        cases hbefore : before.alerting with
        | true => rfl
        | false => exact absurd (hbefore.trans hafter.symm) hsame
      have hodd := hparity.mpr hbefore
      simp only [Bool.false_eq_true, iff_false]
      omega

theorem alternates_turns {alerts : List Alert} {before after : TargetState}
    (h : Alternates alerts) (hparity : alerts.length % 2 = 1 ↔ before.alerting = true) :
    Alternates (alerts ++ turns before after) := by
  rw [turns_eq hparity]
  split_ifs
  · rw [List.append_nil]
    exact h
  · exact h.append

/-- A state that is stored counts no failed check that was not there. -/
theorem Advanced.counted {copy st : TargetState} {ok : Bool} {fails : Nat}
    (hst : Advanced threshold copy ok st)
    (hcopy : ok = false → copy.alerting = false → copy.fail_streak + 1 ≤ fails)
    (hoff : st.alerting = false) : st.fail_streak ≤ fails := by
  cases ok with
  | true =>
    rw [hst.up rfl]
    exact Nat.zero_le _
  | false =>
    have hbefore : copy.alerting = false := by
      cases hbefore : copy.alerting with
      | true => exact absurd (hst.stays rfl hbefore) (by simp [hoff])
      | false => rfl
    exact (hst.streak rfl).trans (hcopy rfl hbefore)

/-- An outage has as many failed checks as the threshold. -/
theorem Advanced.reached {copy st : TargetState} {ok : Bool} {fails : Nat}
    (hst : Advanced threshold copy ok st)
    (hcopy : ok = false → copy.alerting = false → copy.fail_streak + 1 ≤ fails)
    (hon : st.alerting = true) (hoff : copy.alerting = false) : threshold ≤ fails := by
  have hreached := hst.outage hon hoff
  cases ok with
  | true =>
    rw [hst.up rfl] at hon
    cases hon
  | false =>
    have hstreak := hst.streak rfl
    have hfails := hcopy rfl hoff
    omega

theorem turned_turn (h : History) (i : Nat) (r : String) (before after : Bool) :
    (h.turn i r before after).turned r i = h.turned r i ++
      if before = after then []
      else [(if after then .check_failed else .recovered, h.fails r)] := by
  unfold History.turn
  by_cases hsame : before = after
  · rw [if_pos hsame, if_pos hsame, List.append_nil]
  · rw [if_neg hsame, if_neg hsame]
    dsimp only
    rw [Function.update_self, Function.update_self]

/-- What a turn of the stored state leaves as it is. -/
structure History.Turned (h h' : History) : Prop where
  drafts : h'.drafts = h.drafts
  to_check : h'.to_check = h.to_check
  scanning : h'.scanning = h.scanning
  checked : h'.checked = h.checked
  fails : h'.fails = h.fails
  alerted : h'.alerted = h.alerted
  bus : h'.bus = h.bus
  ended : h'.ended = h.ended

theorem turned (h : History) (i : Nat) (id : String) (before after : Bool) :
    h.Turned (h.turn i id before after) := by
  unfold History.turn
  by_cases hsame : before = after
  · rw [if_pos hsame]
    exact ⟨rfl, rfl, rfl, rfl, rfl, rfl, rfl, rfl⟩
  · rw [if_neg hsame]
    exact ⟨rfl, rfl, rfl, rfl, rfl, rfl, rfl, rfl⟩

/-- The state of another target is stored. -/
theorem Inv.put_other {e : Eff} {a : e.Answer} {id : String} {st : TargetState} {before : Bool}
    (h : Inv spawn threshold r g w) (hid : id ≠ r)
    (hw : Handle spawn i w e a { w with
      states := w.states.insert id st
      history := w.history.turn i id before st.alerting }) :
    Inv spawn threshold r (Function.update g i (g i)) { w with
      states := w.states.insert id st
      history := w.history.turn i id before st.alerting } := by
  have ht := turned w.history i id before st.alerting
  have hturned : (w.history.turn i id before st.alerting).turned r = w.history.turned r := by
    unfold History.turn
    by_cases hsame : before = st.alerting
    · rw [if_pos hsame]
    · rw [if_neg hsame]
      exact Function.update_of_ne (Ne.symm hid) _ _
  have hstates : (w.states.insert id st)[r]? = w.states[r]? := by
    rw [Table.getElem?_insert_ite, if_neg hid]
  have hsame : Same r w { w with
      states := w.states.insert id st
      history := w.history.turn i id before st.alerting } := by
    refine ⟨hstates, congrFun ht.bus r, congrFun ht.fails r, fun hgone => ⟨hgone.target, ?_, ?_,
      hgone.issued⟩⟩
    · exact (congrFun ht.to_check r).trans hgone.to_check
    · exact (congrFun ht.drafts r).trans hgone.drafts
  refine h.act hw ?_ ht.scanning ⟨?_, ?_, ?_⟩ (fun _ _ _ ht => ht.congr hsame)
    (fun ht => ht.congr hsame) ?_
  · refine (h.known i).of_keeps ⟨?_, ?_, ?_, congrFun ht.checked i, ?_, congrFun hturned i, ?_⟩
    · rw [ht.drafts]
      exact fun hi => hi
    · rw [ht.to_check]
      exact fun hi => hi
    · rw [ht.scanning]
      exact fun hi => hi
    · rw [ht.alerted]
    · rw [ht.ended]
      exact fun hi => hi
  · rw [ht.drafts]
    exact h.issued.single
  · rw [ht.drafts]
    exact h.issued.drafts
  · rw [ht.drafts, ht.to_check, hstates]
    exact h.issued.stored
  · rw [hturned]
    exact h.outage i

/-- The state of the target is stored over its copy. -/
theorem Tracked.put {copy st : TargetState} {ok : Bool} (h : Tracked r (.checked copy ok) w)
    (hst : Advanced threshold copy ok st) (hlisted : w.history.to_check r ≠ []) :
    Tracked r (.settled (turns copy st)) { w with
      states := w.states.insert r st
      history := w.history.turn i r (w.state r).alerting st.alerting } := by
  have ht := turned w.history i r (w.state r).alerting st.alerting
  obtain ⟨hcopy, hfails⟩ := h.holds
  have hparity : (w.history.bus r).length % 2 = 1 ↔ copy.alerting = true := by
    rcases h.parity with hgone | hparity
    · exact absurd hgone.to_check hlisted
    · rw [hcopy.alerting] at hparity
      rw [show (Phase.checked copy ok).unsent = [] from rfl, List.append_nil] at hparity
      exact hparity
  have hstate : World.state { w with
      states := w.states.insert r st
      history := w.history.turn i r (w.state r).alerting st.alerting } r = st := by
    unfold World.state
    rw [Table.getElem?_insert_ite, if_pos rfl]
    rfl
  refine ⟨?_, .inr ?_, fun _ => ?_, trivial⟩
  · rw [ht.bus]
    have halternate := h.alternate.of_append
    exact alternates_turns halternate hparity
  · rw [ht.bus, hstate]
    exact parity_turns hparity
  · rw [ht.fails, hstate]
    exact hst.counted hfails

theorem Inv.put_state {e : Eff} {a : e.Answer} {copy st : TargetState} {ok : Bool}
    (h : Inv spawn threshold r g w) (hphase : (g i).phase = .checked copy ok)
    (hst : Advanced threshold copy ok st)
    (hw : Handle spawn i w e a { w with
      states := w.states.insert r st
      history := w.history.turn i r (w.state r).alerting st.alerting }) :
    Inv spawn threshold r (Function.update g i ((g i).settle st true)) { w with
      states := w.states.insert r st
      history := w.history.turn i r (w.state r).alerting st.alerting } := by
  have ht := turned w.history i r (w.state r).alerting st.alerting
  have hk := h.known i
  have hi : i ∈ w.history.to_check r := hk.to_check (congrArg Phase.has hphase)
  have hscanning : i ∈ w.history.scanning := hk.scanning (congrArg Phase.active hphase)
  have hlisted := List.ne_nil_of_mem hi
  have hsettle : (g i).settle st true = { g i with phase := .settled (turns copy st) } := by
    unfold Local.settle
    rw [hphase]
    rfl
  -- the scan is the one under way
  have htracked : Tracked r (.checked copy ok) w := by
    have htracked := h.tracked
    rw [current_eq h.single hscanning] at htracked
    rw [← hphase]
    exact htracked
  obtain ⟨hcopy, hfails⟩ := htracked.holds
  have hturned := turned_turn w.history i r (w.state r).alerting st.alerting
  rw [hsettle]
  refine h.act hw ?_ ht.scanning ⟨?_, ?_, ?_⟩ (fun _ _ hother => absurd hscanning hother)
    (fun htracked => ?_) ?_
  · refine ⟨hk.spawn, fun hdrawn => ?_, fun _ => ?_, fun _ => ?_, trivial, ?_, fun hended => ?_⟩
    · rw [ht.drafts]
      exact hk.drawn hdrawn
    · rw [ht.to_check]
      exact hi
    · rw [ht.scanning]
      exact hscanning
    · have hsent := hk.sent
      rw [hphase, show (Phase.checked copy ok).unsent = [] from rfl, List.append_nil] at hsent
      change _ ++ turns copy st = _
      rw [ht.alerted, hturned, hsent, hcopy.alerting, List.map_append]
      unfold turns
      split_ifs <;> rfl
    · rw [ht.ended] at hended
      have := hk.ended hended
      rw [hphase] at this
      cases this
  · rw [ht.drafts]
    exact h.issued.single
  · rw [ht.drafts]
    exact h.issued.drafts
  · rw [ht.drafts, ht.to_check]
    exact fun _ => h.issued.stored (.inr (.inr hlisted))
  · rw [hphase] at htracked
    exact htracked.put hst hlisted
  · rw [hturned]
    intro t hmem hfailed
    rcases List.mem_append.mp hmem with hmem | hmem
    · exact h.outage i t hmem hfailed
    · split_ifs at hmem with hsame hon
      · cases hmem
      · obtain rfl := List.mem_singleton.mp hmem
        refine hst.reached hfails hon ?_
        rw [hcopy.alerting, hon] at hsame
        exact Bool.eq_false_iff.mpr hsame
      · obtain rfl := List.mem_singleton.mp hmem
        cases hfailed

/-- The state of the target could not be stored. -/
theorem Inv.put_failed {e : Eff} {a : e.Answer} {copy st : TargetState} {ok : Bool}
    (h : Inv spawn threshold r g w) (hphase : (g i).phase = .checked copy ok)
    (hst : Advanced threshold copy ok st) (hw : Handle spawn i w e a w)
    (hcond : st.fail_streak = 0 → ¬ w.Counting r) :
    Inv spawn threshold r (Function.update g i ((g i).settle st false)) w := by
  have hk := h.known i
  have hsettle : (g i).settle st false = { g i with phase := .settled [] } := by
    unfold Local.settle
    rw [hphase]
    rfl
  rw [hsettle]
  refine h.go hw ?_ fun ht => ?_
  · have hsent := hk.sent
    rw [hphase] at hsent
    refine ⟨hk.spawn, hk.drawn, fun _ => hk.to_check (congrArg Phase.has hphase),
      fun _ => hk.scanning (congrArg Phase.active hphase), trivial, hsent, fun hended => ?_⟩
    have hphase' := hk.ended hended
    rw [hphase] at hphase'
    cases hphase'
  · rw [hphase] at ht
    refine ht.move rfl ?_ trivial
    rintro copy' hchecked hoff
    obtain ⟨rfl, rfl⟩ := Phase.checked.inj hchecked
    have hzero : st.fail_streak = 0 := by
      rw [hst.up rfl]
      rfl
    have hcount : ¬ 0 < (w.state r).fail_streak := fun hpos => hcond hzero ⟨hoff, hpos⟩
    omega

/-- The state of the target is deleted. -/
theorem Tracked.delete {w : World} (h : Tracked r phase w) (hissued : Issued r w)
    (hhas : phase.has = true → w.history.to_check r ≠ [])
    (hcond : (w.state r).alerting = true → w.targets[r]? = none ∧ w.history.to_check r = []) :
    Tracked r phase { w with states := w.states.erase r } := by
  have hnone : (w.states.erase r)[r]? = none := by
    rw [Table.getElem?_erase_ite, if_pos rfl]
  have hstate : World.state { w with states := w.states.erase r } r = .default :=
    state_of_none hnone
  refine ⟨h.alternate, ?_, ?_, ?_⟩
  · rcases h.parity with hgone | hparity
    · exact .inl ⟨hgone.target, hgone.to_check, hgone.drafts, hgone.issued⟩
    · by_cases hon : (w.state r).alerting = true
      · obtain ⟨htarget, hto_check⟩ := hcond hon
        have hstored : w.states[r]? ≠ none := by
          intro hmissing
          rw [state_of_none hmissing] at hon
          cases hon
        obtain ⟨hdrafts, hid⟩ := hissued.stored (.inr (.inl hstored))
        exact .inl ⟨htarget, hto_check, hdrafts, hid⟩
      · rw [hstate]
        exact .inr (hparity.trans ⟨fun h => absurd h hon, fun h => nomatch h⟩)
  · rw [hstate]
    exact fun _ _ => Nat.zero_le _
  · have hcopy : ∀ copy, phase.has = true → CopyOf r w copy →
        CopyOf r { w with states := w.states.erase r } copy := by
      intro copy hphase hcopy
      refine .inr ⟨hnone, ?_⟩
      rw [← hcopy.alerting]
      cases hon : (w.state r).alerting with
      | false => rfl
      | true => exact absurd (hcond hon).2 (hhas hphase)
    have hholds := h.holds
    cases phase with
    | keys has ks => exact fun _ => hnone
    | todo copy => exact hholds.imp_left (hcopy copy rfl)
    | checked copy ok => exact hholds.imp_left (hcopy copy rfl)
    | idle => trivial
    | listed has => trivial
    | settled unsent => trivial
    | processed unsent => trivial
    | failed => trivial
    | ended => trivial

theorem Inv.delete_state {e : Eff} {a : e.Answer} (h : Inv spawn threshold r g w)
    (hw : Handle spawn i w e a { w with states := w.states.erase r })
    (hcond : (w.state r).alerting = true → w.targets[r]? = none ∧ w.history.to_check r = []) :
    Inv spawn threshold r (Function.update g i (g i)) { w with states := w.states.erase r } := by
  have hk := h.known i
  refine h.act hw hk rfl ⟨h.issued.single, h.issued.drafts, ?_⟩
    (fun _ hhas _ ht => ht.delete h.issued hhas hcond)
    (fun ht => ht.delete h.issued (fun hhas => List.ne_nil_of_mem (hk.to_check hhas)) hcond)
    (h.outage i)
  rintro (htarget | hstate | hlisted)
  · exact h.issued.stored (.inl htarget)
  · have hnone : (w.states.erase r)[r]? = none := by
      rw [Table.getElem?_erase_ite, if_pos rfl]
    exact absurd hnone hstate
  · exact h.issued.stored (.inr (.inr hlisted))

/-! ## The target is checked -/

theorem erase_nil_of_nil {l : List Nat} (h : l = []) : l.erase i = [] := by
  rw [h]
  rfl

/-- What a scan that is done with a target leaves as it is. -/
structure History.Done (r : String) (h h' : History) : Prop where
  drafts : h'.drafts = h.drafts
  scanning : h'.scanning = h.scanning
  checked : h'.checked = h.checked
  fails : h'.fails = h.fails
  turned : h'.turned = h.turned
  alerted : h'.alerted = h.alerted
  bus : h'.bus = h.bus
  ended : h'.ended = h.ended
  to_check : h.to_check r = [] → h'.to_check r = []

theorem check_done (h : History) (i : Nat) (last : Option (String × Bool)) :
    h.Done r (h.check_done i last) := by
  cases last with
  | none => exact ⟨rfl, rfl, rfl, rfl, rfl, rfl, rfl, rfl, id⟩
  | some last =>
    refine ⟨rfl, rfl, rfl, rfl, rfl, rfl, rfl, rfl, fun hnil => ?_⟩
    change Function.update h.to_check last.1 ((h.to_check last.1).erase i) r = []
    by_cases hid : r = last.1
    · rw [hid] at hnil ⊢
      rw [Function.update_self]
      exact erase_nil_of_nil hnil
    · rw [Function.update_of_ne hid]
      exact hnil

theorem to_check_done_of_ne {h : History} {last : Option (String × Bool)}
    (hlast : ∀ ok, last ≠ some (r, ok)) : (h.check_done i last).to_check r = h.to_check r := by
  cases last with
  | none => rfl
  | some last =>
    refine Function.update_of_ne (fun hid => hlast last.2 ?_) _ _
    rw [hid]

theorem Known.process {h : History} (hk : Known spawn r i s h) :
    Known spawn r i s.process (h.check_done i (h.checked i)) := by
  have hd := check_done (r := r) h i (h.checked i)
  have hkeep : (∀ ok, h.checked i ≠ some (r, ok)) →
      Known spawn r i s (h.check_done i (h.checked i)) := by
    intro hlast
    refine hk.of_keeps ⟨?_, ?_, ?_, congrFun hd.checked i, ?_, ?_, ?_⟩
    · rw [hd.drafts]
      exact fun hi => hi
    · rw [to_check_done_of_ne hlast]
      exact fun hi => hi
    · rw [hd.scanning]
      exact fun hi => hi
    · rw [hd.alerted]
    · rw [hd.turned]
    · rw [hd.ended]
      exact fun hi => hi
  have hdone : ∀ phase : Phase, phase.has = false → (phase.active = true → s.phase.active = true) →
      (∀ last, phase.LastChecked r last) → phase.unsent = s.phase.unsent →
      (s.phase = .ended → phase = .ended) →
      Known spawn r i { s with phase } (h.check_done i (h.checked i)) := by
    intro phase hhas hactive hlast hunsent hended
    refine ⟨hk.spawn, ?_, fun htrue => ?_, ?_, hlast _, ?_, ?_⟩
    · rw [hd.drafts]
      exact hk.drawn
    · rw [hhas] at htrue
      cases htrue
    · rw [hd.scanning]
      exact fun ha => hk.scanning (hactive ha)
    · rw [hd.alerted, hd.turned]
      change _ ++ phase.unsent = _
      rw [hunsent]
      exact hk.sent
    · rw [hd.ended]
      exact fun hi => hended (hk.ended hi)
  have hchecked := hk.checked
  unfold Local.process
  cases hphase : s.phase with
  | settled unsent =>
    exact hdone _ rfl (fun _ => hphase ▸ rfl) (fun _ => trivial) (hphase ▸ rfl) (hphase ▸ nofun)
  | checked copy ok =>
    exact hdone _ rfl (fun _ => hphase ▸ rfl) (fun _ => trivial) (hphase ▸ rfl) (hphase ▸ nofun)
  | idle =>
    rw [hphase] at hchecked
    exact hkeep hchecked
  | listed has =>
    rw [hphase] at hchecked
    exact hkeep hchecked
  | keys has ks =>
    rw [hphase] at hchecked
    exact hkeep hchecked
  | todo copy =>
    rw [hphase] at hchecked
    exact hkeep hchecked
  | processed unsent =>
    have hs := hdone _ (hphase ▸ rfl) id (hphase ▸ fun _ => trivial) rfl id
    exact hs
  | failed =>
    have hs := hdone _ (hphase ▸ rfl) id (hphase ▸ fun _ => trivial) rfl id
    exact hs
  | ended =>
    have hs := hdone _ (hphase ▸ rfl) id (hphase ▸ fun _ => trivial) rfl id
    exact hs

/-- A scan has stored a check. -/
theorem Inv.put_check {e : Eff} {a : e.Answer} (h : Inv spawn threshold r g w)
    (hallowed : ∀ copy ok, (g i).phase = .checked copy ok → Advanced threshold copy ok copy)
    (hw : Handle spawn i w e a { w' with
      history := w.history.check_done i (w.history.checked i) })
    (htargets : w'.targets = w.targets) (hstates : w'.states = w.states)
    (hnext : w'.next_target_id = w.next_target_id) :
    Inv spawn threshold r (Function.update g i (g i).process)
      { w' with history := w.history.check_done i (w.history.checked i) } := by
  have hd := check_done (r := r) w.history i (w.history.checked i)
  have hsame : Same r w { w' with history := w.history.check_done i (w.history.checked i) } := by
    refine ⟨congrArg (·[r]?) hstates, congrFun hd.bus r, congrFun hd.fails r, fun hgone => ⟨?_,
      hd.to_check hgone.to_check, (congrFun hd.drafts r).trans hgone.drafts, ?_⟩⟩
    · exact (congrArg (·[r]?) htargets).trans hgone.target
    · change ∃ n ≤ w'.next_target_id, _
      rw [hnext]
      exact hgone.issued
  refine h.act hw (h.known i).process hd.scanning ⟨?_, ?_, ?_⟩ (fun _ _ _ ht => ht.congr hsame)
    (fun ht => ?_) ?_
  · rw [hd.drafts]
    exact h.issued.single
  · rw [hd.drafts, hnext]
    exact h.issued.drafts
  · rw [hd.drafts, hnext]
    intro hstored
    change w'.targets[r]? ≠ none ∨ w'.states[r]? ≠ none ∨
      (w.history.check_done i (w.history.checked i)).to_check r ≠ [] at hstored
    rw [htargets, hstates] at hstored
    exact h.issued.stored (hstored.imp_right fun hs => hs.imp_right (mt hd.to_check))
  · have ht' := ht.congr hsame
    unfold Local.process
    cases hphase : (g i).phase with
    | settled unsent =>
      rw [hphase] at ht'
      exact ht'.move rfl nofun trivial
    | checked copy ok =>
      rw [hphase] at ht'
      refine ht'.move rfl ?_ trivial
      rintro copy' hchecked -
      obtain ⟨rfl, rfl⟩ := Phase.checked.inj hchecked
      have hdefault : copy = .default := (hallowed copy true hphase).up rfl
      rw [hdefault] at ht'
      rcases ht'.holds.1 with hstate | ⟨hnone, -⟩
      · rw [hstate]
        exact Nat.zero_le _
      · rw [state_of_none hnone]
        exact Nat.zero_le _
    | idle => exact ht'
    | listed has => exact ht'
    | keys has ks => exact ht'
    | todo copy => exact ht'
    | processed unsent => exact ht'
    | failed => exact ht'
    | ended => exact ht'
  · rw [hd.turned]
    exact h.outage i

/-- Another target is checked. -/
theorem Inv.check_other {e : Eff} {a : e.Answer} {id : String} {ok : Bool}
    (h : Inv spawn threshold r g w) (hid : id ≠ r) (hallowed : (g i).Apart)
    (hw : Handle spawn i w e a { w with history := w.history.check i id ok }) :
    Inv spawn threshold r (Function.update g i (g i))
      { w with history := w.history.check i id ok } := by
  have hk := h.known i
  have hsame : Same r w { w with history := w.history.check i id ok } :=
    ⟨rfl, rfl, Function.update_of_ne (Ne.symm hid) _ _,
      fun hgone => ⟨hgone.target, hgone.to_check, hgone.drafts, hgone.issued⟩⟩
  refine h.act hw { hk with checked := ?_ } rfl ⟨h.issued.single, h.issued.drafts, h.issued.stored⟩
    (fun _ _ _ ht => ht.congr hsame) (fun ht => ht.congr hsame) (h.outage i)
  have hlast : (w.history.check i id ok).checked i = some (id, ok) := Function.update_self _ _ _
  rcases hallowed with ⟨copy, hphase⟩ | ⟨unsent, hphase⟩
  · rw [hphase]
    intro ok' hchecked
    rw [hlast] at hchecked
    exact hid (Prod.mk.inj (Option.some.inj hchecked)).1
  · rw [hphase]
    trivial

/-- The target is checked. -/
theorem Inv.check {e : Eff} {a : e.Answer} {copy : TargetState} {ok : Bool}
    (h : Inv spawn threshold r g w) (hphase : (g i).phase = .todo copy)
    (hw : Handle spawn i w e a { w with history := w.history.check i r ok }) :
    Inv spawn threshold r (Function.update g i ((g i).check ok))
      { w with history := w.history.check i r ok } := by
  have hk := h.known i
  have hscanning : i ∈ w.history.scanning := hk.scanning (congrArg Phase.active hphase)
  have hcheck : (g i).check ok = { g i with phase := .checked copy ok } := by
    unfold Local.check
    rw [hphase]
  have hfails : (w.history.check i r ok).fails r = if ok then 0 else w.history.fails r + 1 :=
    Function.update_self _ _ _
  rw [hcheck]
  refine h.act hw ?_ rfl ⟨h.issued.single, h.issued.drafts, h.issued.stored⟩
    (fun _ _ hother => absurd hscanning hother) (fun ht => ?_) (h.outage i)
  · have hsent := hk.sent
    rw [hphase] at hsent
    refine ⟨hk.spawn, hk.drawn, fun _ => hk.to_check (congrArg Phase.has hphase), fun _ => hscanning,
      Function.update_self _ _ _, hsent, fun hended => ?_⟩
    have hphase' := hk.ended hended
    rw [hphase] at hphase'
    cases hphase'
  · rw [hphase] at ht
    obtain ⟨hcopy, hstreak⟩ := ht.holds
    have hparity : World.Gone r { w with history := w.history.check i r ok } ∨ _ :=
      ht.parity.imp_left fun hgone => ⟨hgone.target, hgone.to_check, hgone.drafts, hgone.issued⟩
    refine ⟨ht.alternate, hparity, fun hnot => ?_, hcopy, fun hfailed hoff => ?_⟩
    · cases ok with
      | true => exact absurd rfl (hnot copy)
      | false =>
        rw [hfails]
        exact fun hoff => Nat.le_succ_of_le (ht.streak nofun hoff)
    · rw [hfails, hfailed]
      exact Nat.succ_le_succ (hstreak hoff)

/-! ## The alert is put on the bus -/

theorem Inv.alert_other {e : Eff} {a : e.Answer} {id : String} {alert : Alert}
    (h : Inv spawn threshold r g w) (hid : id ≠ r)
    (hw : Handle spawn i w e a { w with history := w.history.put_alert i id alert }) :
    Inv spawn threshold r (Function.update g i (g i))
      { w with history := w.history.put_alert i id alert } := by
  have hk := h.known i
  have hsame : Same r w { w with history := w.history.put_alert i id alert } :=
    ⟨rfl, Function.update_of_ne (Ne.symm hid) _ _, rfl,
      fun hgone => ⟨hgone.target, hgone.to_check, hgone.drafts, hgone.issued⟩⟩
  have halerted : (w.history.put_alert i id alert).alerted r = w.history.alerted r :=
    Function.update_of_ne (Ne.symm hid) _ _
  refine h.act hw { hk with sent := ?_ } rfl ⟨h.issued.single, h.issued.drafts, h.issued.stored⟩
    (fun _ _ _ ht => ht.congr hsame) (fun ht => ht.congr hsame) (h.outage i)
  rw [halerted]
  exact hk.sent

theorem Inv.alert {e : Eff} {a : e.Answer} {alert : Alert} {rest : List Alert}
    (h : Inv spawn threshold r g w) (hphase : (g i).phase = .processed (alert :: rest))
    (hw : Handle spawn i w e a { w with history := w.history.put_alert i r alert }) :
    Inv spawn threshold r (Function.update g i (g i).send)
      { w with history := w.history.put_alert i r alert } := by
  have hk := h.known i
  have hscanning : i ∈ w.history.scanning := hk.scanning (congrArg Phase.active hphase)
  have hsend : (g i).send = { g i with phase := .processed rest } := by
    unfold Local.send
    rw [hphase]
    rfl
  have halerted : (w.history.put_alert i r alert).alerted r i = w.history.alerted r i ++ [alert] := by
    unfold History.put_alert
    dsimp only
    rw [Function.update_self, Function.update_self]
  have hbus : (w.history.put_alert i r alert).bus r = w.history.bus r ++ [alert] :=
    Function.update_self _ _ _
  rw [hsend]
  refine h.act hw ?_ rfl ⟨h.issued.single, h.issued.drafts, h.issued.stored⟩
    (fun _ _ hother => absurd hscanning hother) (fun ht => ?_) (h.outage i)
  · have hsent := hk.sent
    rw [hphase] at hsent
    refine ⟨hk.spawn, hk.drawn, nofun, fun _ => hscanning, trivial, ?_, fun hended => ?_⟩
    · rw [halerted, List.append_assoc]
      exact hsent
    · have hphase' := hk.ended hended
      rw [hphase] at hphase'
      cases hphase'
  · rw [hphase] at ht
    have hunsent : w.history.bus r ++ (Phase.processed (alert :: rest)).unsent =
        (w.history.put_alert i r alert).bus r ++ (Phase.processed rest).unsent := by
      rw [hbus, List.append_assoc]
      rfl
    refine ⟨?_, ?_, fun _ => ht.streak nofun, trivial⟩
    · rw [← hunsent]
      exact ht.alternate
    · rw [← hunsent]
      exact ht.parity.imp_left fun hgone =>
        ⟨hgone.target, hgone.to_check, hgone.drafts, hgone.issued⟩

/-- The task of a scan ends. -/
theorem Inv.end_scan (h : Inv spawn threshold r g w)
    (hphase : (g i).phase = .failed ∨ (g i).phase = .processed []) :
    Inv spawn threshold r (Function.update g i { g i with phase := .ended })
      { w with history := w.history.end_scan i } := by
  have hk := h.known i
  have hsame : Same r w { w with history := w.history.end_scan i } :=
    ⟨rfl, rfl, rfl, fun hgone =>
      ⟨hgone.target, erase_nil_of_nil hgone.to_check, hgone.drafts, hgone.issued⟩⟩
  have hunsent : (g i).phase.unsent = [] := by
    rcases hphase with hphase | hphase
    · rw [hphase]
      rfl
    · rw [hphase]
      rfl
  refine ⟨fun j => ?_, ?_, ⟨h.issued.single, h.issued.drafts, ?_⟩, ?_, h.outage⟩
  · by_cases hj : j = i
    · subst hj
      rw [Function.update_self]
      have hsent := hk.sent
      rw [hunsent] at hsent
      exact ⟨hk.spawn, hk.drawn, nofun, nofun, trivial, hsent, fun _ => rfl⟩
    · rw [Function.update_of_ne hj]
      exact (h.known j).of_keeps (keeps_end_scan w.history hj)
  · exact (List.length_erase_le).trans h.single
  · exact fun hstored =>
      h.issued.stored (hstored.imp_right fun hs => hs.imp_right (mt erase_nil_of_nil))
  · change Tracked r (current _ (w.history.scanning.erase i)) _
    have htracked := h.tracked
    by_cases hi : i ∈ w.history.scanning
    · rw [current_eq h.single hi] at htracked ⊢
      rw [List.erase_cons_head]
      refine (htracked.congr hsame).move hunsent.symm ?_ trivial
      rintro copy hchecked
      rcases hphase with hphase | hphase
      · exact nomatch hphase.symm.trans hchecked
      · exact nomatch hphase.symm.trans hchecked
    · rw [List.erase_of_not_mem hi, current_update_of_not_mem hi]
      exact htracked.congr hsame

/-! ## Runs -/

theorem call_cases {α : Type} {a : α} {w₁ : World} {res : Except String α}
    (h : w.call a w₁ = (res, w')) :
    (res = .ok a ∧ w' = w₁) ∨ ∃ e, res = .error e ∧ w' = w := by
  cases hfail : w.failure with
  | none =>
    rw [call_of_none hfail] at h
    obtain ⟨rfl, rfl⟩ := Prod.mk.inj h
    exact .inl ⟨rfl, rfl⟩
  | some e =>
    rw [call_of_some hfail] at h
    obtain ⟨rfl, rfl⟩ := Prod.mk.inj h
    exact .inr ⟨e, rfl, rfl⟩

/-- One effect of a task. -/
theorem inv_act {e : Eff} {a : e.Answer} (h : Inv spawn threshold r g w)
    (hallowed : (g i).Allowed threshold r e) (hw : Handle spawn i w e a w')
    (hcond : Undisturbed spawn r w (.act i e a)) :
    ∃ s, (g i).Next r e a s ∧ Inv spawn threshold r (Function.update g i s) w' := by
  have hserve := hw
  cases e with
  | now =>
    obtain ⟨rfl, rfl⟩ := Prod.mk.inj hserve
    exact ⟨_, rfl, h.stay hw rfl rfl id rfl⟩
  | db_keys space =>
    cases space with
    | target =>
      rcases call_cases hserve with ⟨rfl, rfl⟩ | ⟨error, rfl, rfl⟩
      · refine ⟨_, rfl, ?_⟩
        split_ifs
        · exact h.list hw hallowed nofun (.refl _) rfl h.issued ⟨rfl, rfl, rfl, id⟩
        · exact h.stay hw rfl rfl id rfl
      · refine ⟨_, rfl, h.fail hw ?_ ?_ ?_⟩
        · rw [hallowed]
          exact nofun
        · rw [hallowed]
          exact fun _ => rfl
        · rw [hallowed]
          exact fun _ => nofun
    | check =>
      rcases call_cases hserve with ⟨rfl, rfl⟩ | ⟨error, rfl, rfl⟩
      · exact ⟨_, rfl, h.stay hw rfl rfl id rfl⟩
      · exact ⟨_, rfl, h.stay hw rfl rfl id rfl⟩
    | state =>
      obtain ⟨has, hphase⟩ := hallowed
      rcases call_cases hserve with ⟨rfl, rfl⟩ | ⟨error, rfl, rfl⟩
      · refine ⟨_, rfl, ?_⟩
        cases hs : spawn i with
        | request req =>
          rw [hs] at hw
          rw [Local.list_states_of_request ((h.known i).spawn.trans hs)]
          exact h.stay hw rfl rfl id rfl
        | tick =>
          unfold Undisturbed at hcond
          dsimp only at hcond
          rw [hs] at hcond
          exact h.list_states hs hphase hcond
      · refine ⟨_, rfl, h.fail hw ?_ ?_ ?_⟩
        · rw [hphase]
          exact nofun
        · rw [hphase]
          exact fun _ => rfl
        · rw [hphase]
          exact fun _ => nofun
  | get_targets keys =>
    rcases call_cases hserve with ⟨rfl, rfl⟩ | ⟨error, rfl, rfl⟩
    · exact ⟨_, ⟨nodup_target_rows w keys, rfl⟩, h.get_targets hw hallowed⟩
    · refine ⟨_, rfl, h.fail hw ?_ ?_ ?_⟩
      · rw [hallowed]
        exact nofun
      · rw [hallowed]
        exact fun _ => rfl
      · rw [hallowed]
        exact fun _ => nofun
  | get_states keys =>
    obtain ⟨has, hphase⟩ := hallowed
    rcases call_cases hserve with ⟨rfl, rfl⟩ | ⟨error, rfl, rfl⟩
    · exact ⟨_, rfl, h.get_states hw hphase⟩
    · refine ⟨_, rfl, h.fail hw ?_ ?_ ?_⟩
      · rw [hphase]
        exact nofun
      · rw [hphase]
        exact fun _ => rfl
      · rw [hphase]
        exact fun _ => nofun
  | get_checks keys =>
    rcases call_cases hserve with ⟨rfl, rfl⟩ | ⟨error, rfl, rfl⟩
    · exact ⟨_, rfl, h.stay hw rfl rfl id rfl⟩
    · exact ⟨_, rfl, h.stay hw rfl rfl id rfl⟩
  | db_incr counter =>
    cases counter with
    | next_target_id =>
      rcases call_cases hserve with ⟨rfl, rfl⟩ | ⟨error, rfl, rfl⟩
      · exact ⟨_, rfl, h.draw hw⟩
      · exact ⟨_, rfl, h.stay hw rfl rfl id rfl⟩
    | next_check_id =>
      rcases call_cases hserve with ⟨rfl, rfl⟩ | ⟨error, rfl, rfl⟩
      · exact ⟨_, rfl, h.stay hw rfl rfl id rfl⟩
      · unfold Undisturbed at hcond
        dsimp only at hcond
        refine ⟨_, rfl, h.fail hw hallowed ?_ ?_⟩
        · intro hs
          rw [hs] at hcond
          have hsent := (h.known i).sent
          rw [← hcond.1] at hsent
          exact List.append_right_eq_self.mp hsent
        · intro hs copy hphase hoff
          rw [hs] at hcond
          have hchecked := (h.known i).checked
          rw [hphase] at hchecked
          refine Nat.le_trans (Nat.le_of_not_lt fun hpos => ?_) (Nat.zero_le _)
          exact hcond.2 hchecked ⟨hoff, hpos⟩
  | put_target t =>
    have hresult : a = (w.call () (w.put_target t)).1 ∧
        w' = { (w.call () (w.put_target t)).2 with history := w.history.draft_done i t.id } := by
      obtain ⟨ha, hw'⟩ := Prod.mk.inj hserve
      exact ⟨ha.symm, hw'.symm⟩
    obtain ⟨rfl, rfl⟩ := hresult
    refine ⟨_, rfl, h.put_target hw hallowed ?_ ?_ ?_⟩
    · intro hid
      cases hfail : w.failure with
      | none =>
        rw [call_of_none hfail]
        change (w.targets.insert t.id t)[r]? = _
        rw [Table.getElem?_insert_ite, if_neg hid]
      | some error => rw [call_of_some hfail]
    · cases hfail : w.failure with
      | none => rw [call_of_none hfail]; rfl
      | some error => rw [call_of_some hfail]
    · cases hfail : w.failure with
      | none => rw [call_of_none hfail]; rfl
      | some error => rw [call_of_some hfail]
  | delete_target id =>
    rcases call_cases hserve with ⟨rfl, rfl⟩ | ⟨error, rfl, rfl⟩
    · refine ⟨_, rfl, h.stay hw rfl rfl ?_ rfl⟩
      change (w.targets.erase id)[r]? ≠ none → _
      rw [Table.getElem?_erase_ite]
      split_ifs
      · exact fun hne => absurd rfl hne
      · exact fun hne => hne
    · exact ⟨_, rfl, h.stay hw rfl rfl (fun hne => hne) rfl⟩
  | put_state id st =>
    by_cases hid : id = r
    · subst hid
      obtain ⟨copy, ok, hphase, hst⟩ := hallowed rfl
      rcases call_cases hserve with ⟨rfl, rfl⟩ | ⟨error, rfl, rfl⟩
      · exact ⟨_, (if_pos rfl).symm, h.put_state hphase hst hw⟩
      · exact ⟨_, (if_pos rfl).symm, h.put_failed hphase hst hw (hcond rfl)⟩
    · rcases call_cases hserve with ⟨rfl, rfl⟩ | ⟨error, rfl, rfl⟩
      · exact ⟨_, (if_neg hid).symm, h.put_other hid hw⟩
      · exact ⟨_, (if_neg hid).symm, h.stay hw rfl rfl (fun hne => hne) rfl⟩
  | delete_state id =>
    rcases call_cases hserve with ⟨rfl, rfl⟩ | ⟨error, rfl, rfl⟩
    · by_cases hid : id = r
      · subst hid
        exact ⟨_, rfl, h.delete_state hw (hcond rfl)⟩
      · refine ⟨_, rfl, h.stay hw rfl ?_ (fun hne => hne) rfl⟩
        change (w.states.erase id)[r]? = _
        rw [Table.getElem?_erase_ite, if_neg hid]
    · exact ⟨_, rfl, h.stay hw rfl rfl (fun hne => hne) rfl⟩
  | put_check c =>
    have hresult : a = (w.call () { w with checks := w.checks.insert c.id c }).1 ∧
        w' = { (w.call () { w with checks := w.checks.insert c.id c }).2 with
          history := w.history.check_done i (w.history.checked i) } := by
      obtain ⟨ha, hw'⟩ := Prod.mk.inj hserve
      exact ⟨ha.symm, hw'.symm⟩
    obtain ⟨rfl, rfl⟩ := hresult
    refine ⟨_, rfl, h.put_check hallowed hw ?_ ?_ ?_⟩
    · cases hfail : w.failure with
      | none => rw [call_of_none hfail]
      | some error => rw [call_of_some hfail]
    · cases hfail : w.failure with
      | none => rw [call_of_none hfail]
      | some error => rw [call_of_some hfail]
    · cases hfail : w.failure with
      | none => rw [call_of_none hfail]
      | some error => rw [call_of_some hfail]
  | delete_check id =>
    rcases call_cases hserve with ⟨rfl, rfl⟩ | ⟨error, rfl, rfl⟩
    · exact ⟨_, rfl, h.stay hw rfl rfl (fun hne => hne) rfl⟩
    · exact ⟨_, rfl, h.stay hw rfl rfl (fun hne => hne) rfl⟩
  | http_request target url timeout_ms =>
    obtain ⟨rfl, rfl⟩ := Prod.mk.inj hserve
    cases target with
    | none => exact ⟨_, rfl, h.stay hw rfl rfl id rfl⟩
    | some id =>
      by_cases hid : id = r
      · subst hid
        obtain ⟨copy, hphase⟩ := (if_pos rfl).mp hallowed
        exact ⟨_, (if_pos rfl).symm, h.check hphase hw⟩
      · exact ⟨_, (if_neg hid).symm, h.check_other hid ((if_neg hid).mp hallowed) hw⟩
  | alert id alert payload =>
    obtain ⟨rfl, rfl⟩ := Prod.mk.inj hserve
    by_cases hid : id = r
    · subst hid
      obtain ⟨rest, hphase⟩ := hallowed rfl
      exact ⟨_, (if_pos rfl).symm, h.alert hphase hw⟩
    · exact ⟨_, (if_neg hid).symm, h.alert_other hid hw⟩
  | publish event_type payload =>
    obtain ⟨rfl, rfl⟩ := Prod.mk.inj hserve
    exact ⟨_, rfl, h.stay hw rfl rfl id rfl⟩
  | reply result =>
    obtain ⟨rfl, rfl⟩ := Prod.mk.inj hserve
    exact ⟨_, rfl, h.stay hw rfl rfl id rfl⟩
  | ended =>
    obtain ⟨rfl, rfl⟩ := Prod.mk.inj hserve
    exact ⟨_, rfl, h.end_scan hallowed.2⟩

theorem inv_start : Inv spawn threshold r (fun i => .start (spawn i)) .empty where
  known i := ⟨rfl, nofun, nofun, nofun, nofun, rfl, nofun⟩
  single := Nat.zero_le 1
  issued := by
    refine ⟨Nat.zero_le 1, fun h => absurd rfl h, ?_⟩
    rintro (h | h | h)
    · exact absurd Std.ExtTreeMap.getElem?_empty h
    · exact absurd Std.ExtTreeMap.getElem?_empty h
    · exact absurd rfl h
  tracked := by
    have hstate : World.state .empty r = .default := state_of_none Std.ExtTreeMap.getElem?_empty
    refine ⟨fun n alert (h : [][n]? = some alert) => (nomatch h), .inr ?_, ?_, trivial⟩
    · rw [hstate]
      exact ⟨nofun, nofun⟩
    · rw [hstate]
      exact fun _ _ => Nat.zero_le _
  outage _ _ ht := nomatch ht

theorem Inv.alerts (h : Inv spawn threshold r g w) : Alerts threshold r w where
  alternate := h.tracked.alternate.of_append
  turns i := ⟨_, (h.known i).sent⟩
  all i hi := by
    have hsent := (h.known i).sent
    rw [(h.known i).ended hi, show Phase.ended.unsent = [] from rfl, List.append_nil] at hsent
    exact hsent
  outage := h.outage

/-- The alerts of a target alternate, each turn of its stored state is put on the bus and no outage
    that is shorter than the threshold is, if one scan at a time reads the states, none of them ends
    with an alert that is still to be put on the bus, no count is left stored that a check has ended,
    and the state of a target that has alerted is not deleted while it may be stored again. -/
theorem alerts_of_undisturbed {config : Config} {trace : List TaskLabel} {p : Tasks}
    (hrun : Run (Where (fun p l => Undisturbed spawn r p.world l) (TaskStep spawn))
      (.start config spawn) trace p) : Alerts config.fail_threshold r p.world := by
  have hinv : PoolInv (targetProtocol config.fail_threshold r) (fun _ _ _ => True)
      (fun g _ w => Inv spawn config.fail_threshold r g w) trace p := by
    refine hrun.invariant ?_ fun trace p l p' hp hstep => ?_
    · exact ⟨fun i => .start (spawn i), inv_start, fun i => obeys_task config (spawn i)⟩
    · refine hp.step ?_ ?_ (hstep.1.where _ hstep.2)
      · intro g trace w i e a w' h hallowed hw
        exact inv_act h hallowed hw.1 hw.2
      · rintro g trace w l w' h ⟨rfl, -⟩
        have hsame : Same r w (w.turn l) :=
          ⟨rfl, rfl, rfl, fun hgone => ⟨hgone.target, hgone.to_check, hgone.drafts, hgone.issued⟩⟩
        exact ⟨h.known, h.single, ⟨h.issued.single, h.issued.drafts, h.issued.stored⟩,
          h.tracked.congr hsame, h.outage⟩
  obtain ⟨g, h, -⟩ := hinv
  exact h.alerts

/-! ## An outage -/

/-- An alert at the first failed check. -/
def eager : Config where
  max_checks := 0
  check_timeout_ms := 5000
  fail_threshold := 1

/-- A request that adds a target, and then the ticks of the timer. -/
def addAndTicks : Nat → Spawn
  | 0 => .request (.Add "https://a.example")
  | _ => .tick

/-- The tasks move as they are told. -/
def runTasks (cond : World → TaskLabel → Prop) [∀ w l, Decidable (cond w l)]
    (requests : List TaskRequest) : Option (List TaskLabel × Tasks) :=
  runOf (answerTask addAndTicks cond) (.start eager addAndTicks) requests

theorem run_runTasks {cond : World → TaskLabel → Prop} [∀ w l, Decidable (cond w l)]
    {requests : List TaskRequest} {res : List TaskLabel × Tasks}
    (h : runTasks cond requests = some res) :
    Run (Where (fun p l => cond p.world l) (TaskStep addAndTicks)) (.start eager addAndTicks)
      res.1 res.2 :=
  run_runOf (fun _ _ _ _ h => taskStep_answerTask h) h

def answering : Weather where
  clock := 60000
  failure := none
  answer := (.ok (.obj [("status", .int 200)]), 20)

/-- The first scan finds the target down, the second one finds it up again. -/
def outageAndRecovery : List TaskRequest :=
  List.replicate 6 (.act 0) ++ List.replicate 10 (.act 1) ++ [.turn answering] ++
    List.replicate 11 (.act 2)

theorem alerts_of_undisturbed_sample : ∃ res,
    runTasks (Undisturbed addAndTicks "1") outageAndRecovery = some res ∧
      res.2.world.history.bus "1" = [.check_failed, .recovered] ∧ Alerts 1 "1" res.2.world := by
  have hsome : ((runTasks (Undisturbed addAndTicks "1") outageAndRecovery).any fun res =>
      res.2.world.history.bus "1" = [.check_failed, .recovered]) = true := by
    decide +kernel
  obtain ⟨res, hres, hbus⟩ := (Option.any_eq_true _ _).mp hsome
  exact ⟨res, hres, of_decide_eq_true hbus, alerts_of_undisturbed (run_runTasks hres)⟩

/-- The second scan reads the states before the first one has stored the outage. -/
def overlappingScans : List TaskRequest :=
  List.replicate 6 (.act 0) ++ List.replicate 3 (.act 1) ++ List.replicate 3 (.act 2) ++
    List.replicate 6 (.act 1) ++ List.replicate 6 (.act 2)

/-- One outage alerts twice. -/
theorem overlapping_scans_alert_twice : ∃ trace p,
    Run (TaskStep addAndTicks) (.start eager addAndTicks) trace p ∧
      ¬ Alerts eager.fail_threshold "1" p.world := by
  have hsome : ((runTasks (fun _ _ => True) overlappingScans).any fun res =>
      res.2.world.history.bus "1" = [.check_failed, .check_failed]) = true := by
    decide
  obtain ⟨res, hres, hbus⟩ := (Option.any_eq_true _ _).mp hsome
  refine ⟨res.1, res.2, (run_runTasks hres).mono fun _ _ _ hl => hl.1, fun halerts => ?_⟩
  have halternate := halerts.alternate
  rw [of_decide_eq_true hbus] at halternate
  exact nomatch halternate 1 .check_failed rfl

end Uptime
