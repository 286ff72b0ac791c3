import VynkorPlugins.Automations.World

/-!
# What a task does

A task writes and dispatches only what it has read: an event task the rules of its listing, with the
mark that it has just made, and a request its own rule. The protocol says so once for all tasks.
-/

namespace Automations

open Async

/-- Whether a task has begun, and whether it has ended. -/
inductive Phase where
  | waiting
  | running
  | replied

/-- What a task has at hand. -/
structure Local where
  spawn : Spawn
  phase : Phase
  /-- The rules it has read; an event task keeps the marks it makes on them. -/
  copies : String → Option RuleDoc
  /-- The last reading of the clock since it read the rules. -/
  read : Option Int64
  /-- The id that was drawn for its rule. -/
  drawn : Option String
  /-- The rule that its last call has written. -/
  wrote : Option String

def Local.start (spawn : Spawn) : Local where
  spawn
  phase := .waiting
  copies _ := none
  read := none
  drawn := none
  wrote := none

/-- A rule that was read and is marked now. -/
def Local.Marked (s : Local) (rule d : RuleDoc) : Prop :=
  s.copies rule.id = some d ∧ rule.settings = d.settings ∧ s.read = some rule.last_fired_ms

/-- A request writes its own rule: under the id that was drawn, or over the rule that it has read. -/
inductive Local.Requested (s : Local) (doc rule : RuleDoc) : Prop
  | created (hid : doc.id = "") (hdrawn : s.drawn = some rule.id)
      (hsettings : rule.settings = doc.settings)
  | updated {d : RuleDoc} (hid : rule.id = doc.id) (hne : doc.id ≠ "")
      (hcopy : s.copies doc.id = some d) (hsettings : rule.settings = (doc.merged d).settings)
      (hfired : rule.last_fired_ms = d.last_fired_ms)

def Local.MayPut (s : Local) (rule : RuleDoc) : Prop :=
  match s.spawn with
  | .event .. => ∃ d, s.Marked rule d
  | .request (.RuleSet doc) => s.Requested doc rule
  | .request _ => False

def Local.MayDispatch (s : Local) (rule : RuleDoc) (params : Json) : Prop :=
  match s.spawn with
  | .event event_type payload =>
    ∃ d now, s.Marked rule d ∧ d.cooldown_ok now = true ∧ 0 ≤ now ∧ now ≤ rule.last_fired_ms ∧
      rule.enabled = true ∧ rule.requires_confirmation = false ∧
      rule.trigger.event_type = event_type ∧ rule.conditions_hold payload = true ∧
      params = rule.params payload
  | .request _ => False

def Local.MayReply (s : Local) : Except String Reply → Prop
  | .error _ => True
  | .ok reply =>
    match s.spawn, reply with
    | .request (.RuleSet _), .stored id | .request (.RuleDelete id), _ => s.wrote = some id
    | .request (.RuleSet _), _ => False
    | _, _ => True

section

variable {s : Local}

theorem Local.mayPut_event {event_type : String} {payload : Json} {rule : RuleDoc}
    (h : s.spawn = .event event_type payload) : s.MayPut rule ↔ ∃ d, s.Marked rule d := by
  unfold MayPut
  rw [h]

theorem Local.mayPut_set {doc rule : RuleDoc} (h : s.spawn = .request (.RuleSet doc)) :
    s.MayPut rule ↔ s.Requested doc rule := by
  unfold MayPut
  rw [h]

/-- Only an event task dispatches, and only what it has marked. -/
theorem Local.MayDispatch.marked {rule : RuleDoc} {params : Json} (h : s.MayDispatch rule params) :
    ∃ d, s.Marked rule d ∧ ∀ parsed, s.spawn ≠ .request parsed := by
  unfold MayDispatch at h
  split at h
  · rename_i hspawn
    obtain ⟨d, -, hm, -⟩ := h
    refine ⟨d, hm, fun parsed hparsed => ?_⟩
    rw [hspawn] at hparsed
    cases hparsed
  · exact h.elim

theorem Local.mayReply_set {doc : RuleDoc} {id : String} (h : s.spawn = .request (.RuleSet doc)) :
    s.MayReply (.ok (.stored id)) ↔ s.wrote = some id := by
  unfold MayReply
  rw [h]

theorem Local.mayReply_delete {id : String} {reply : Reply}
    (h : s.spawn = .request (.RuleDelete id)) : s.MayReply (.ok reply) ↔ s.wrote = some id := by
  unfold MayReply
  rw [h]

end

/-- What a task may ask for. A request reads its rules before it draws an id. -/
def Local.Allowed (s : Local) : Eff → Prop
  | .received => s.phase = .waiting
  | .db_batch_get _ => s.phase = .running ∧ s.drawn = none
  | .db_get id => s.phase = .running ∧ s.drawn = none ∧
    ∀ doc, s.spawn = .request (.RuleSet doc) → id = doc.id
  | .db_set rule => s.phase = .running ∧ s.MayPut rule
  | .db_delete id => s.phase = .running ∧ s.spawn = .request (.RuleDelete id)
  | .db_incr => s.phase = .running ∧ ∃ parsed, s.spawn = .request parsed
  | .call_action rule params => s.phase = .running ∧ s.MayDispatch rule params
  | .reply result => s.phase = .running ∧ s.MayReply result
  | .now | .db_keys | .publish .. => s.phase = .running

/-- The listing of an event task, by the ids of the rules. -/
def listing (docs : List RuleDoc) (id : String) : Option RuleDoc :=
  docs.find? fun d => d.id = id

def Local.Next (s : Local) : (e : Eff) → e.Answer → Local → Prop
  | .received, _, s' => s' = { s with phase := .running }
  | .now, t, s' => 0 ≤ t ∧ (∀ t', s.read = some t' → t' ≤ t) ∧ s' = { s with read := some t }
  | .db_batch_get _, .ok docs, s' =>
    (docs.map RuleDoc.id).Nodup ∧
      s' = { s with
        copies := match s.spawn with
          | .event .. => listing docs
          | .request _ => fun _ => none
        read := none }
  | .db_batch_get _, .error _, s' => s' = { s with copies := fun _ => none, read := none }
  | .db_get id, .ok d, s' =>
    (∀ rule, d = some rule → rule.id = id) ∧
      s' = { s with copies := fun id' => if id' = id then d else none, read := none }
  | .db_get _, .error _, s' => s' = { s with copies := fun _ => none, read := none }
  | .db_set rule, r, s' => s' = { s with wrote := if r.toBool then some rule.id else none }
  | .db_delete id, r, s' => s' = { s with wrote := if r.toBool then some id else none }
  | .db_incr, .ok n, s' => s' = { s with drawn := some (toString n) }
  | .db_incr, .error _, s' => s' = s
  | .call_action rule _, _, s' => s' = { s with copies := Function.update s.copies rule.id (some rule) }
  | .reply _, _, s' => s' = { s with phase := .replied }
  | .db_keys, _, s' => s' = s
  | .publish .., _, s' => s' = s

def taskProtocol : Protocol Eff Eff.Answer Local where
  allowed := Local.Allowed
  next := Local.Next

/-! ## Listings -/

theorem listing_of_mem {docs : List RuleDoc} (hnodup : (docs.map RuleDoc.id).Nodup) {d : RuleDoc}
    (hd : d ∈ docs) : listing docs d.id = some d := by
  induction docs with
  | nil => cases hd
  | cons d' docs ih =>
    rw [List.map_cons, List.nodup_cons] at hnodup
    unfold listing
    rw [List.find?_cons]
    rcases List.mem_cons.mp hd with rfl | hd
    · simp
    · have hne : d'.id ≠ d.id := by
        intro heq
        exact hnodup.1 (List.mem_map.mpr ⟨d, hd, heq.symm⟩)
      rw [decide_eq_false hne]
      exact ih hnodup.2 hd

/-- The rules that are listed are the stored ones, each once. -/
theorem World.nodup_rows (w : World) (keys : List String) : ((w.rows keys).map RuleDoc.id).Nodup := by
  have hids : (w.rows keys).map RuleDoc.id =
      (w.rules.selectWhere fun id _ => id ∈ keys).map Prod.fst := by
    unfold World.rows
    rw [List.map_map]
    refine List.map_congr_left fun row hrow => ?_
    obtain ⟨id, rule⟩ := row
    exact w.keyed id rule (Table.mem_selectWhere.mp hrow).1
  rw [hids]
  exact Table.nodup_selectWhere _ _

theorem World.listing_rows (w : World) {keys : List String} {id : String} {d : RuleDoc}
    (h : listing (w.rows keys) id = some d) : w.rules[id]? = some d := by
  unfold listing at h
  have hid : d.id = id := by simpa using List.find?_some h
  obtain ⟨⟨id', d'⟩, hrow, rfl⟩ := List.mem_map.mp (List.mem_of_find?_eq_some h)
  obtain ⟨hstored, -⟩ := Table.mem_selectWhere.mp hrow
  rw [← hid, w.keyed id' d' hstored]
  exact hstored

/-! ## Events -/

variable {s : Local} {event_type : String} {payload : Json} {rule d : RuleDoc}

/-- An event task runs, and has at hand what it had at another time, up to one rule. -/
structure Local.Evaluating (s : Local) (event_type : String) (payload : Json) (id : String)
    (s' : Local) : Prop where
  spawn : s'.spawn = .event event_type payload
  phase : s'.phase = .running
  copies : ∀ id', id' ≠ id → s'.copies id' = s.copies id'

theorem obeys_settle {s₀ : Local} (hs : s₀.Evaluating event_type payload rule.id s)
    (hm : s.Marked rule d) (dispatched : Except String Unit) :
    Obeys taskProtocol (fun s' _ => s₀.Evaluating event_type payload rule.id s') s
      (settle event_type rule dispatched) := by
  have hput : ∀ rule' : RuleDoc, rule'.id = rule.id → rule'.settings = rule.settings →
      rule'.last_fired_ms = rule.last_fired_ms → s.Allowed (.db_set rule') := by
    intro rule' hid hsettings hfired
    refine ⟨hs.phase, (Local.mayPut_event hs.spawn).mpr ⟨d, ?_, hsettings.trans hm.2.1, ?_⟩⟩
    · rw [hid]
      exact hm.1
    · rw [hfired]
      exact hm.2.2
  unfold settle
  cases dispatched with
  | ok _ =>
    refine ⟨hput _ rfl rfl rfl, ?_⟩
    rintro r s' rfl
    refine ⟨hs.phase, ?_⟩
    rintro r s' rfl
    exact ⟨hs.spawn, hs.phase, hs.copies⟩
  | error e =>
    refine ⟨hput _ rfl rfl rfl, ?_⟩
    rintro r s' rfl
    refine ⟨hs.phase, ?_⟩
    rintro r s' rfl
    exact ⟨hs.spawn, hs.phase, hs.copies⟩

theorem obeys_hold {s₀ : Local} (hs : s₀.Evaluating event_type payload rule.id s)
    (hm : s.Marked rule d) :
    Obeys taskProtocol (fun s' _ => s₀.Evaluating event_type payload rule.id s') s
      (hold event_type rule) := by
  unfold hold
  refine ⟨⟨hs.phase, (Local.mayPut_event hs.spawn).mpr ⟨d, hm⟩⟩, ?_⟩
  rintro r s' rfl
  refine ⟨hs.phase, ?_⟩
  rintro r s' rfl
  exact ⟨hs.spawn, hs.phase, hs.copies⟩

theorem obeys_evaluate (hspawn : s.spawn = .event event_type payload) (hphase : s.phase = .running)
    (hcopy : s.copies rule.id = some rule) :
    Obeys taskProtocol (fun s' _ => s.Evaluating event_type payload rule.id s') s
      (evaluate event_type payload rule) := by
  have hnothing : s.Evaluating event_type payload rule.id s := ⟨hspawn, hphase, fun _ _ => rfl⟩
  unfold evaluate
  split_ifs with henabled hcond
  · exact hnothing
  · exact hnothing
  simp only [Bool.or_eq_true, Bool.not_eq_true', decide_eq_true_eq, not_or, Bool.not_eq_false,
    not_not, ne_eq] at henabled hcond
  refine ⟨hphase, ?_⟩
  rintro now s₁ ⟨hnow, -, rfl⟩
  change Obeys _ _ _ (if !rule.cooldown_ok now then _ else _)
  split_ifs with hcool
  · exact ⟨hspawn, hphase, fun _ _ => rfl⟩
  simp only [Bool.not_eq_true', Bool.not_eq_false] at hcool
  unfold fire
  refine ⟨hphase, ?_⟩
  rintro fired s₂ ⟨-, hle, rfl⟩
  set marked : RuleDoc := { rule with last_fired_ms := fired, fire_count := rule.fire_count + 1 }
  set s₃ : Local := { s with read := some fired }
  have hs : s.Evaluating event_type payload marked.id s₃ := ⟨hspawn, hphase, fun _ _ => rfl⟩
  have hm : s₃.Marked marked rule := ⟨hcopy, rfl, rfl⟩
  change Obeys _ _ _ (if marked.requires_confirmation then _ else _)
  split_ifs with hconfirm
  · exact obeys_hold hs hm
  unfold dispatch
  split_ifs with hlong
  · exact obeys_settle hs hm (.error _)
  refine ⟨⟨hphase, ?_⟩, ?_⟩
  · unfold Local.MayDispatch
    rw [show s₃.spawn = _ from hspawn]
    exact ⟨rule, now, hm, hcool, hnow, hle now rfl, henabled.1, by simpa using hconfirm, henabled.2,
      hcond, rfl⟩
  · rintro r s₄ hs₄
    have hs' : s.Evaluating event_type payload marked.id s₄ := by
      rw [hs₄]
      exact ⟨hspawn, hphase, fun id hid => Function.update_of_ne hid _ _⟩
    have hm' : s₄.Marked marked marked := by
      rw [hs₄]
      exact ⟨Function.update_self _ _ _, rfl, rfl⟩
    exact obeys_settle hs' hm' r

theorem obeys_evaluateAll {rules : List RuleDoc} (hspawn : s.spawn = .event event_type payload)
    (hphase : s.phase = .running) (hnodup : (rules.map RuleDoc.id).Nodup)
    (hcopies : ∀ rule ∈ rules, s.copies rule.id = some rule) :
    Obeys taskProtocol (fun _ _ => True) s (evaluateAll event_type payload rules) := by
  induction rules generalizing s with
  | nil => trivial
  | cons rule rules ih =>
    rw [List.map_cons, List.nodup_cons] at hnodup
    refine (obeys_evaluate hspawn hphase (hcopies rule List.mem_cons_self)).bind fun s' _ hs' => ?_
    refine ih hs'.spawn hs'.phase hnodup.2 fun rule' hrule' => ?_
    have hne : rule'.id ≠ rule.id := by
      intro heq
      exact hnodup.1 (List.mem_map.mpr ⟨rule', hrule', heq⟩)
    rw [hs'.copies _ hne]
    exact hcopies rule' (List.mem_cons_of_mem _ hrule')

/-- A task has listed the rules, before it drew an id. An event task has them at hand. -/
structure Local.Listed (event_type : String) (payload : Json) (s s' : Local)
    (r : Except String (List RuleDoc)) : Prop where
  spawn : s'.spawn = s.spawn
  phase : s'.phase = .running
  drawn : s'.drawn = none
  nodup : ∀ rules, r = .ok rules → (rules.map RuleDoc.id).Nodup
  copies : ∀ rules, r = .ok rules → s.spawn = .event event_type payload →
    ∀ rule ∈ rules, s'.copies rule.id = some rule

theorem obeys_list (hphase : s.phase = .running) (hdrawn : s.drawn = none) :
    Obeys taskProtocol (fun s' r => Local.Listed event_type payload s s' r) s Db.list := by
  have herror : ∀ e, Local.Listed event_type payload s s (.error e) := by
    intro e
    refine ⟨rfl, hphase, hdrawn, ?_, ?_⟩
    · intro rules h
      cases h
    · intro rules h
      cases h
  unfold Db.list
  refine ⟨hphase, ?_⟩
  rintro (e | keys) s₁ rfl
  · exact herror e
  change Obeys _ _ _ (if keys = [] then _ else _)
  split_ifs with hkeys
  · refine ⟨rfl, hphase, hdrawn, ?_, ?_⟩
    · rintro rules h
      obtain rfl := Except.ok.inj h
      exact List.nodup_nil
    · rintro rules h - rule hrule
      obtain rfl := Except.ok.inj h
      cases hrule
  refine ⟨⟨hphase, hdrawn⟩, ?_⟩
  rintro (e | docs) s' hs'
  · obtain rfl := hs'
    refine ⟨rfl, hphase, hdrawn, ?_, ?_⟩
    · intro rules h
      cases h
    · intro rules h
      cases h
  · obtain ⟨hnodup, rfl⟩ := hs'
    refine ⟨rfl, hphase, hdrawn, ?_, ?_⟩
    · intro rules h
      obtain rfl := Except.ok.inj h
      exact hnodup
    · intro rules h hspawn rule hrule
      obtain rfl := Except.ok.inj h
      simp only [hspawn]
      exact listing_of_mem hnodup hrule

theorem obeys_on_event (subscribed : List String) (hspawn : s.spawn = .event event_type payload)
    (hphase : s.phase = .running) (hdrawn : s.drawn = none) :
    Obeys taskProtocol (fun _ _ => True) s (on_event subscribed event_type payload) := by
  unfold on_event
  split_ifs with hsub
  swap
  · trivial
  refine (@obeys_list s event_type payload hphase hdrawn).bind fun s' r hr => ?_
  cases r with
  | error e => trivial
  | ok rules =>
    exact obeys_evaluateAll (hr.spawn.trans hspawn) hr.phase (hr.nodup rules rfl)
      (hr.copies rules rfl hspawn)

/-! ## Requests -/

variable {doc : RuleDoc}

/-- A request still runs, and may give its answer. -/
structure Local.Answering (spawn : Spawn) (s : Local) (result : Except String Reply) : Prop where
  spawn : s.spawn = spawn
  phase : s.phase = .running
  reply : s.MayReply result

theorem Local.Answering.error {spawn : Spawn} (hspawn : s.spawn = spawn) (hphase : s.phase = .running)
    (e : String) : s.Answering spawn (.error e) :=
  ⟨hspawn, hphase, trivial⟩

/-- The rule is put with the time of its update. -/
theorem obeys_store (hspawn : s.spawn = .request (.RuleSet doc)) (hphase : s.phase = .running)
    (hput : ∀ now, { s with read := some now }.Requested doc { rule with updated_at_ms := now }) :
    Obeys taskProtocol (fun s' r => s'.Answering (.request (.RuleSet doc)) r) s (store rule) := by
  unfold store
  refine ⟨hphase, ?_⟩
  rintro now s₁ ⟨-, -, rfl⟩
  refine ⟨⟨hphase, ?_⟩, ?_⟩
  · refine (Local.mayPut_set ?_).mpr (hput now)
    exact hspawn
  rintro (e | u) s₂ rfl
  · refine .error ?_ ?_ e
    · exact hspawn
    · exact hphase
  · refine ⟨hspawn, hphase, (@Local.mayReply_set _ doc _ ?_).mpr rfl⟩
    exact hspawn

theorem obeys_rule_set (hspawn : s.spawn = .request (.RuleSet doc)) (hphase : s.phase = .running)
    (hdrawn : s.drawn = none) :
    Obeys taskProtocol (fun s' r => s'.Answering (.request (.RuleSet doc)) r) s (rule_set doc) := by
  unfold rule_set
  split_ifs with hid
  · refine (@obeys_list s "" .null hphase hdrawn).bind fun s₁ r hr => ?_
    cases r with
    | error e => exact .error (hr.spawn.trans hspawn) hr.phase e
    | ok rules =>
      change Obeys _ _ _ (if MAX_RULES ≤ rules.length then _ else _)
      split_ifs with hcap
      · exact .error (hr.spawn.trans hspawn) hr.phase _
      refine ⟨⟨hr.phase, _, hr.spawn.trans hspawn⟩, ?_⟩
      rintro (e | n) s₂ rfl
      · exact .error (hr.spawn.trans hspawn) hr.phase e
      · refine obeys_store (hr.spawn.trans hspawn) hr.phase fun now => ?_
        exact .created hid rfl rfl
  · refine ⟨⟨hphase, hdrawn, ?_⟩, ?_⟩
    · intro doc' hdoc'
      rw [hspawn] at hdoc'
      cases hdoc'
      rfl
    rintro (e | (_ | existing)) s₁ hs₁
    · obtain rfl := hs₁
      refine .error ?_ ?_ e
      · exact hspawn
      · exact hphase
    · obtain ⟨-, rfl⟩ := hs₁
      refine .error ?_ ?_ ("rule not found: " ++ doc.id)
      · exact hspawn
      · exact hphase
    · obtain ⟨-, rfl⟩ := hs₁
      refine obeys_store hspawn hphase fun now => ?_
      exact .updated rfl hid (if_pos rfl) rfl rfl

theorem obeys_apply {parsed : AutomationRequest} (hspawn : s.spawn = .request parsed)
    (hphase : s.phase = .running) (hdrawn : s.drawn = none) :
    Obeys taskProtocol (fun s' r => s'.Answering (.request parsed) r) s (apply parsed) := by
  unfold apply
  cases parsed with
  | RuleSet doc => exact obeys_rule_set hspawn hphase hdrawn
  | RuleGet id =>
    refine ⟨⟨hphase, hdrawn, ?_⟩, ?_⟩
    · intro doc' hdoc'
      rw [hspawn] at hdoc'
      cases hdoc'
    rintro (e | rule) s₁ hs₁
    · obtain rfl := hs₁
      refine .error ?_ ?_ e
      · exact hspawn
      · exact hphase
    · obtain ⟨-, rfl⟩ := hs₁
      refine ⟨hspawn, hphase, ?_⟩
      unfold Local.MayReply
      simp only [hspawn]
  | RuleList =>
    refine (@obeys_list s "" .null hphase hdrawn).bind fun s₁ r hr => ?_
    cases r with
    | error e => exact .error (hr.spawn.trans hspawn) hr.phase e
    | ok rules =>
      refine ⟨hr.spawn.trans hspawn, hr.phase, ?_⟩
      unfold Local.MayReply
      simp only [hr.spawn.trans hspawn]
  | RuleDelete id =>
    refine ⟨⟨hphase, hspawn⟩, ?_⟩
    rintro (e | deleted) s₁ rfl
    · refine .error ?_ ?_ e
      · exact hspawn
      · exact hphase
    · refine ⟨hspawn, hphase, (@Local.mayReply_delete _ id _ ?_).mpr rfl⟩
      exact hspawn

/-- Every task obeys the protocol. -/
theorem obeys_task (subscribed : List String) (spawn : Spawn) :
    Obeys taskProtocol (fun _ _ => True) (.start spawn) (spawn.task subscribed) := by
  cases spawn with
  | event event_type payload =>
    refine ⟨rfl, ?_⟩
    rintro r s rfl
    exact obeys_on_event subscribed rfl rfl rfl
  | request parsed =>
    refine ⟨rfl, ?_⟩
    rintro r s rfl
    change Obeys _ _ _ (apply parsed >>= _)
    refine Obeys.bind (obeys_apply rfl rfl rfl) fun s' result h => ?_
    refine ⟨⟨h.phase, h.reply⟩, ?_⟩
    rintro r s'' rfl
    trivial

end Automations
