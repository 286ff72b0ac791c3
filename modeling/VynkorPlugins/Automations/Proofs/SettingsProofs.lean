import VynkorPlugins.Automations.Proofs.CooldownProofs

/-!
# The settings of a rule

As long as no request has written a rule since a task read it, the copy of the task has the settings
of the stored rule. What such a task writes back therefore changes no setting.
-/

namespace Automations

open Async Transition

variable {spawn : Nat → Spawn} {g : Nat → Local} {w w' : World} {s : Local} {i : Nat}

/-! ## Settings -/

theorem Agrees.trans {stored : Option RuleDoc} {req : Option RuleDoc} {rule : RuleDoc}
    (h : Agrees stored req) (hrule : ∃ d, stored = some d ∧ d.settings = rule.settings) :
    Agrees (some rule) req := by
  obtain ⟨d, rfl, hd⟩ := hrule
  cases req with
  | none => cases h
  | some req =>
    obtain ⟨d', hd', hsettings⟩ := h
    obtain rfl := Option.some.inj hd'
    exact ⟨rule, rfl, hd.symm.trans hsettings⟩

/-- The rule as a request wants it. -/
def Spawn.requested : Spawn → String → Option RuleDoc
  | .request (.RuleSet doc), id => some { doc with id }
  | _, _ => none

theorem settings_merged {doc d : RuleDoc} (h : doc.enabled = false → d.enabled = false) :
    (doc.merged d).settings = doc.settings := by
  unfold RuleDoc.merged RuleDoc.settings
  cases hdoc : doc.enabled with
  | true => simp
  | false => simp [h hdoc]

/-! ## Invariant -/

/-- What a task has, and what it has written. -/
structure TaskSettings (w : World) (i : Nat) (s : Local) : Prop where
  waiting : s.phase = .waiting → ∀ id, s.copies id = none
  copied_le : ∀ id, w.history.changes_at_copy i id ≤ w.history.changes id
  copies : ∀ event_type payload id d, s.spawn = .event event_type payload → s.copies id = some d →
    w.history.changes_at_copy i id = w.history.changes id →
    ∃ d', w.rules[id]? = some d' ∧ d'.settings = d.settings
  unforced : ∀ doc d, s.spawn = .request (.RuleSet doc) → s.copies doc.id = some d →
    doc.enabled = false → d.enabled = false
  wrote : ∀ parsed id, s.spawn = .request parsed → s.wrote = some id →
    w.history.changes_at_write i ≤ w.history.changes id ∧
      (w.history.changes_at_write i = w.history.changes id →
        Agrees w.rules[id]? (s.spawn.requested id))
  since_start : ∀ event_type payload id d before acked, s.spawn = .event event_type payload →
    s.copies id = some d → w.history.latest_at_start i id = some before →
    w.history.latest id = some acked → before.task = acked.task →
    w.history.changes_at_copy i id = w.history.changes id

/-- The state of every task, and the world. A request that was acknowledged has ended. -/
structure SettingsInv (spawn : Nat → Spawn) (g : Nat → Local) (w : World) : Prop where
  spawn : ∀ i, (g i).spawn = spawn i
  sticks : Sticks w
  latest : ∀ id acked, w.history.latest id = some acked → (g acked.task).phase = .replied
  started : ∀ i id acked, w.history.latest_at_start i id = some acked →
    (g acked.task).phase = .replied
  task : ∀ i, TaskSettings w i (g i)

theorem settingsInv_start (w : World) :
    SettingsInv spawn (fun i => .start (spawn i)) { w with history := .empty } := by
  constructor
  · intro i
    rfl
  · intro id acked h
    cases h
  · intro id acked h
    cases h
  · intro i id acked h
    cases h
  · intro i
    constructor
    · intro _ id
      rfl
    · intro id
      exact Nat.le_refl _
    · intro _ _ id d _ h
      cases h
    · intro doc d _ h
      cases h
    · intro parsed id _ h
      cases h
    · intro _ _ id d before acked _ h
      cases h

/-! ## One step -/

/-- What becomes of the world in a step of a task: a rule that no request writes keeps its settings,
    and none is written whose last acknowledged request still stands. -/
structure Follows (i : Nat) (w w' : World) : Prop where
  changes_le : ∀ id, w.history.changes id ≤ w'.history.changes id
  settings : ∀ id, w'.history.changes id = w.history.changes id →
    w'.rules[id]? = w.rules[id]? ∨
      ∃ d d', w.rules[id]? = some d ∧ w'.rules[id]? = some d' ∧ d.settings = d'.settings
  latest : ∀ id acked, w'.history.latest id = some acked →
    (w.history.latest id = some acked ∧ w'.history.changes id = w.history.changes id) ∨
      acked.task = i ∧ Agrees w'.rules[id]? acked.rule
  copy : ∀ j, j ≠ i → w'.history.changes_at_copy j = w.history.changes_at_copy j
  write : ∀ j, j ≠ i → w'.history.changes_at_write j = w.history.changes_at_write j
  start : ∀ j, j ≠ i → w'.history.latest_at_start j = w.history.latest_at_start j

theorem Follows.agrees {id : String} {req : Option RuleDoc} (h : Follows i w w')
    (hchanges : w'.history.changes id = w.history.changes id) (hagrees : Agrees w.rules[id]? req) :
    Agrees w'.rules[id]? req := by
  rcases h.settings id hchanges with heq | ⟨d, d', hd, hd', hsettings⟩
  · rw [heq]
    exact hagrees
  · rw [hd']
    exact hagrees.trans ⟨d, hd, hsettings⟩

/-- A task does not notice the steps of the others, as long as they do not end its own request. -/
theorem TaskSettings.follow {j : Nat} (h : TaskSettings w j s) (hw : Follows i w w')
    (hcopy : w'.history.changes_at_copy j = w.history.changes_at_copy j)
    (hwrite : w'.history.changes_at_write j = w.history.changes_at_write j)
    (hlatest : ∀ id before acked, w'.history.latest_at_start j id = some before →
      w'.history.latest id = some acked → before.task = acked.task →
      w.history.latest_at_start j id = some before ∧ w.history.latest id = some acked ∧
        w'.history.changes id = w.history.changes id) : TaskSettings w' j s := by
  constructor
  · exact h.waiting
  · intro id
    rw [hcopy]
    exact (h.copied_le id).trans (hw.changes_le id)
  · intro event_type payload id d hspawn hd hchanges
    rw [hcopy] at hchanges
    have hsame : w'.history.changes id = w.history.changes id := by
      have hle := h.copied_le id
      have hle' := hw.changes_le id
      omega
    obtain ⟨d₀, hd₀, hsettings⟩ := h.copies event_type payload id d hspawn hd (hchanges.trans hsame)
    rcases hw.settings id hsame with heq | ⟨d₁, d₁', hd₁, hd₁', hsettings'⟩
    · rw [heq]
      exact ⟨d₀, hd₀, hsettings⟩
    · obtain rfl := Option.some.inj (hd₁.symm.trans hd₀)
      exact ⟨d₁', hd₁', hsettings'.symm.trans hsettings⟩
  · exact h.unforced
  · intro parsed id hspawn hwrote
    obtain ⟨hle, hagrees⟩ := h.wrote parsed id hspawn hwrote
    rw [hwrite]
    refine ⟨hle.trans (hw.changes_le id), fun hchanges => ?_⟩
    have hsame : w'.history.changes id = w.history.changes id := by
      have hle' := hw.changes_le id
      omega
    exact hw.agrees hsame (hagrees (hchanges.trans hsame))
  · intro event_type payload id d before acked hspawn hd hbefore hacked htask
    obtain ⟨hbefore', hacked', hsame⟩ := hlatest id before acked hbefore hacked htask
    rw [hcopy, hsame]
    exact h.since_start event_type payload id d before acked hspawn hd hbefore' hacked' htask

/-- A step of task `i`, which has not ended before it. -/
theorem SettingsInv.follow (h : SettingsInv spawn g w) (hw : Follows i w w')
    (hphase : (g i).phase ≠ .replied) (hspawn : s.spawn = (g i).spawn)
    (hend : s.phase = .replied ∨
      ∀ id acked, w'.history.latest id = some acked → w.history.latest id = some acked)
    (hstart : ∀ id acked, w'.history.latest_at_start i id = some acked →
      (g acked.task).phase = .replied)
    (htask : TaskSettings w' i s) : SettingsInv spawn (Function.update g i s) w' := by
  have hended : ∀ k, (g k).phase = .replied → (Function.update g i s k).phase = .replied := by
    intro k hk
    rcases eq_or_ne k i with rfl | hne
    · exact (hphase hk).elim
    · rw [Function.update_of_ne hne]
      exact hk
  constructor
  · intro j
    rcases eq_or_ne j i with rfl | hne
    · rw [Function.update_self, hspawn]
      exact h.spawn j
    · rw [Function.update_of_ne hne]
      exact h.spawn j
  · intro id acked hacked
    rcases hw.latest id acked hacked with ⟨hold, hsame⟩ | ⟨-, hagrees⟩
    · exact hw.agrees hsame (h.sticks id acked hold)
    · exact hagrees
  · intro id acked hacked
    rcases hw.latest id acked hacked with ⟨hold, -⟩ | ⟨htask', -⟩
    · exact hended _ (h.latest id acked hold)
    · rcases hend with hreplied | hold
      · rw [htask', Function.update_self]
        exact hreplied
      · exact hended _ (h.latest id acked (hold id acked hacked))
  · intro j id acked hacked
    rcases eq_or_ne j i with rfl | hne
    · exact hended _ (hstart id acked hacked)
    · rw [hw.start j hne] at hacked
      exact hended _ (h.started j id acked hacked)
  · intro j
    rcases eq_or_ne j i with rfl | hne
    · rw [Function.update_self]
      exact htask
    · rw [Function.update_of_ne hne]
      refine (h.task j).follow hw (hw.copy j hne) (hw.write j hne) ?_
      intro id before acked hbefore hacked heq
      rw [hw.start j hne] at hbefore
      refine ⟨hbefore, ?_⟩
      rcases hw.latest id acked hacked with hold | ⟨htask', -⟩
      · exact hold
      · -- the request that is acknowledged now had not ended when the task began
        have hreplied := h.started j id before hbefore
        rw [heq, htask'] at hreplied
        exact (hphase hreplied).elim

/-- A step that changes no rule and acknowledges nothing. -/
theorem Follows.same (hrules : w'.rules = w.rules) (hchanges : w'.history.changes = w.history.changes)
    (hlatest : ∀ id acked, w'.history.latest id = some acked → w.history.latest id = some acked)
    (hcopy : ∀ j, j ≠ i → w'.history.changes_at_copy j = w.history.changes_at_copy j)
    (hwrite : w'.history.changes_at_write = w.history.changes_at_write)
    (hstart : ∀ j, j ≠ i → w'.history.latest_at_start j = w.history.latest_at_start j) :
    Follows i w w' := by
  refine ⟨?_, ?_, ?_, hcopy, ?_, hstart⟩
  · intro id
    rw [hchanges]
  · intro id _
    rw [hrules]
    exact .inl rfl
  · intro id acked hacked
    rw [hchanges]
    exact .inl ⟨hlatest id acked hacked, rfl⟩
  · intro j _
    rw [hwrite]

/-- A task that is no event task, or has no copies. -/
theorem TaskSettings.of_uncopied (hcopies : ∀ event_type payload id d,
      s.spawn = .event event_type payload → s.copies id = some d → False)
    (hwaiting : s.phase = .waiting → ∀ id, s.copies id = none)
    (hle : ∀ id, w.history.changes_at_copy i id ≤ w.history.changes id)
    (hforced : ∀ doc d, s.spawn = .request (.RuleSet doc) → s.copies doc.id = some d →
      doc.enabled = false → d.enabled = false)
    (hwrote : ∀ parsed id, s.spawn = .request parsed → s.wrote = some id →
      w.history.changes_at_write i ≤ w.history.changes id ∧
        (w.history.changes_at_write i = w.history.changes id →
          Agrees w.rules[id]? (s.spawn.requested id))) : TaskSettings w i s := by
  refine ⟨hwaiting, hle, ?_, hforced, hwrote, ?_⟩
  · intro event_type payload id d hspawn hd
    exact (hcopies event_type payload id d hspawn hd).elim
  · intro event_type payload id d before acked hspawn hd
    exact (hcopies event_type payload id d hspawn hd).elim

theorem receive_changes {h : History} {spawn : Spawn} :
    (h.receive i spawn).changes = h.changes ∧
      (h.receive i spawn).changes_at_copy = h.changes_at_copy ∧
      (h.receive i spawn).changes_at_write = h.changes_at_write := by
  rcases spawn with _ | (_ | _ | _ | _) <;> exact ⟨rfl, rfl, rfl⟩

/-- The beginning of a task: it acknowledges nothing. -/
theorem receive_latest {h : History} {spawn : Spawn} {id : String} {acked : Acked}
    (hacked : (h.receive i spawn).latest id = some acked) : h.latest id = some acked := by
  have hupdate : ∀ id', Function.update h.latest id' none id = some acked →
      h.latest id = some acked := by
    intro id' h'
    rcases eq_or_ne id id' with rfl | hne
    · rw [Function.update_self] at h'
      cases h'
    · rwa [Function.update_of_ne hne] at h'
  rcases spawn with _ | (doc | _ | _ | id')
  · exact hacked
  · exact hupdate doc.id hacked
  · exact hacked
  · exact hacked
  · exact hupdate id' hacked

theorem receive_latest_at_start {h : History} {spawn : Spawn} :
    (∀ j, j ≠ i → (h.receive i spawn).latest_at_start j = h.latest_at_start j) ∧
      ((h.receive i spawn).latest_at_start i = h.latest_at_start i ∨
        (h.receive i spawn).latest_at_start i = h.latest) := by
  rcases spawn with _ | (_ | _ | _ | _)
  · exact ⟨fun j hne => Function.update_of_ne hne _ _, .inr (Function.update_self _ _ _)⟩
  · exact ⟨fun _ _ => rfl, .inl rfl⟩
  · exact ⟨fun _ _ => rfl, .inl rfl⟩
  · exact ⟨fun _ _ => rfl, .inl rfl⟩
  · exact ⟨fun _ _ => rfl, .inl rfl⟩

theorem settingsInv_received (h : SettingsInv spawn g w) (hphase : (g i).phase = .waiting) :
    SettingsInv spawn (Function.update g i { g i with phase := .running })
      { w with history := w.history.receive i (spawn i) } := by
  obtain ⟨hchanges, hcopy, hwrite⟩ := @receive_changes i w.history (spawn i)
  obtain ⟨hothers, hstart⟩ := @receive_latest_at_start i w.history (spawn i)
  have hnone := (h.task i).waiting hphase
  refine h.follow (.same rfl hchanges (fun id acked => receive_latest) ?_ hwrite hothers) ?_ rfl
    (.inr fun id acked => receive_latest) ?_ ?_
  · intro j _
    exact congrFun hcopy j
  · rw [hphase]
    exact fun heq => nomatch heq
  · intro id acked hacked
    rcases hstart with heq | heq
    · exact h.started i id acked ((congrFun heq id).symm.trans hacked)
    · exact h.latest id acked ((congrFun heq id).symm.trans hacked)
  · refine .of_uncopied ?_ ?_ ?_ ?_ ?_
    · intro _ _ id d _ hd
      exact Option.some_ne_none d (hd.symm.trans (hnone id))
    · intro hwaiting
      cases hwaiting
    · intro id
      rw [hchanges, hcopy]
      exact (h.task i).copied_le id
    · intro doc d _ hd
      exact (Option.some_ne_none d (hd.symm.trans (hnone doc.id))).elim
    · intro parsed id hparsed hwrote
      rw [hchanges, hwrite]
      exact (h.task i).wrote parsed id hparsed hwrote

/-- A task reads the rules. -/
theorem settingsInv_copy (h : SettingsInv spawn g w) (hphase : (g i).phase = .running)
    (hspawn : s.spawn = (g i).spawn) (hphase' : s.phase = .running) (hwrote : s.wrote = (g i).wrote)
    (hcopies : ∀ id d, s.copies id = some d → w.rules[id]? = some d)
    (hforced : ∀ doc d, s.spawn = .request (.RuleSet doc) → s.copies doc.id = some d →
      doc.enabled = false → d.enabled = false) :
    SettingsInv spawn (Function.update g i s) { w with history := w.history.copy i } := by
  have hcopied : (w.history.copy i).changes_at_copy i = w.history.changes := Function.update_self _ _ _
  refine h.follow (.same rfl rfl (fun _ _ => id) ?_ rfl fun _ _ => rfl) ?_ hspawn
    (.inr fun _ _ => id) ?_ ?_
  · intro j hne
    exact Function.update_of_ne hne _ _
  · rw [hphase]
    exact fun heq => nomatch heq
  · exact h.started i
  · constructor
    · intro hwaiting
      rw [hphase'] at hwaiting
      cases hwaiting
    · intro id
      simp only [hcopied]
      exact Nat.le_refl _
    · intro _ _ id d _ hd _
      exact ⟨d, hcopies id d hd, rfl⟩
    · exact hforced
    · intro parsed id hparsed hw
      rw [hspawn] at hparsed ⊢
      exact (h.task i).wrote parsed id hparsed (hwrote.symm.trans hw)
    · intro _ _ id d before acked _ _ _ _ _
      simp only [hcopied]
      rfl

/-- A task goes on in a world whose rules and requests are the same. -/
theorem SettingsInv.unchanged (h : SettingsInv spawn g w) (hphase : (g i).phase = .running)
    (hw : Follows i w w') (hlatest : w'.history.latest = w.history.latest)
    (hcopy : w'.history.changes_at_copy = w.history.changes_at_copy)
    (hwrite : w'.history.changes_at_write = w.history.changes_at_write)
    (hchanges : w'.history.changes = w.history.changes)
    (hstart : w'.history.latest_at_start = w.history.latest_at_start) (hspawn : s.spawn = (g i).spawn)
    (htask : TaskSettings w' i (g i) → TaskSettings w' i s) :
    SettingsInv spawn (Function.update g i s) w' := by
  refine h.follow hw ?_ hspawn (.inr ?_) ?_ (htask ?_)
  · rw [hphase]
    exact fun heq => nomatch heq
  · rw [hlatest]
    exact fun _ _ => id
  · rw [hstart]
    exact h.started i
  · refine (h.task i).follow hw (by rw [hcopy]) (by rw [hwrite]) ?_
    rw [hlatest, hchanges, hstart]
    exact fun _ _ _ hbefore hacked _ => ⟨hbefore, hacked, rfl⟩

theorem follows_refl : Follows i w w :=
  .same rfl rfl (fun _ _ => id) (fun _ _ => rfl) rfl fun _ _ => rfl

/-- An event task puts a rule that it has read after the last request on it. -/
theorem follows_put_event {event_type : String} {payload : Json} {rule d : RuleDoc}
    (hstored : w.rules[rule.id]? = some d) (hsettings : d.settings = rule.settings) :
    Follows i w (w.put (.event event_type payload) i rule) := by
  refine ⟨fun _ => Nat.le_refl _, ?_, fun _ _ hacked => .inl ⟨hacked, rfl⟩, fun _ _ => rfl,
    fun _ _ => rfl, fun _ _ => rfl⟩
  intro id _
  change (w.rules.insert rule.id rule)[id]? = _ ∨ _
  rw [Table.getElem?_insert_ite]
  by_cases hid : rule.id = id
  · subst hid
    refine .inr ⟨d, rule, hstored, ?_, hsettings⟩
    change (w.rules.insert rule.id rule)[rule.id]? = _
    rw [Table.getElem?_insert_ite, if_pos rfl]
  · rw [if_neg hid]
    exact .inl rfl

/-- A request writes its rule, and no request on it has been acknowledged since it began. -/
theorem follows_change {id : String} {parsed : AutomationRequest}
    (hrules : ∀ id', id' ≠ id → w'.rules[id']? = w.rules[id']?)
    (hhistory : ∃ stored_marks, w'.history =
      { w.history with stored_marks }.change i id (.request parsed))
    (hlatest : w.history.latest id = none) : Follows i w w' := by
  obtain ⟨stored_marks, hhistory⟩ := hhistory
  have hchanges : w'.history.changes =
      Function.update w.history.changes id (w.history.changes id + 1) := by
    rw [hhistory]
    exact rfl
  have hsame : ∀ id', id' ≠ id → w'.history.changes id' = w.history.changes id' := by
    intro id' hne
    rw [hchanges, Function.update_of_ne hne]
  constructor
  · intro id'
    rcases eq_or_ne id' id with rfl | hne
    · rw [hchanges, Function.update_self]
      exact Nat.le_succ _
    · rw [hsame id' hne]
  · intro id' heq
    rcases eq_or_ne id' id with rfl | hne
    · rw [hchanges, Function.update_self] at heq
      omega
    · exact .inl (hrules id' hne)
  · intro id' acked hacked
    rw [hhistory] at hacked
    have hne : id' ≠ id := by
      rintro rfl
      exact Option.some_ne_none acked (hacked.symm.trans hlatest)
    exact .inl ⟨hacked, hsame id' hne⟩
  · intro j hne
    rw [hhistory]
    exact rfl
  · intro j hne
    rw [hhistory]
    exact Function.update_of_ne hne _ _
  · intro j hne
    rw [hhistory]
    exact rfl

theorem follows_put_request {rule : RuleDoc} {parsed : AutomationRequest}
    (hlatest : w.history.latest rule.id = none) : Follows i w (w.put (.request parsed) i rule) := by
  refine @follows_change w _ i _ parsed (fun id hne => ?_) ⟨_, rfl⟩ hlatest
  change (w.rules.insert rule.id rule)[id]? = _
  rw [Table.getElem?_insert_ite, if_neg hne.symm]

theorem follows_delete {id : String} {parsed : AutomationRequest}
    (hlatest : w.history.latest id = none) : Follows i w (w.delete (.request parsed) i id) := by
  refine @follows_change w _ i _ parsed (fun id' hne => ?_) ⟨w.history.stored_marks, rfl⟩ hlatest
  change (w.rules.erase id)[id']? = _
  rw [Table.getElem?_erase_ite, if_neg hne.symm]

/-- A request has written its rule: the rule is as it wants it, until another request writes it. -/
theorem TaskSettings.written {id : String} {parsed : AutomationRequest} {wrote : Option String}
    {sp : Spawn} (h : TaskSettings w i s) (hsp : sp = .request parsed) (hspawn : s.spawn = sp)
    (hphase : s.phase = .running)
    (hhistory : ∃ stored_marks, w'.history = { w.history with stored_marks }.change i id sp)
    (hwrote : ∀ id', wrote = some id' → id' = id)
    (hagrees : Agrees w'.rules[id]? (sp.requested id)) : TaskSettings w' i { s with wrote } := by
  obtain ⟨stored_marks, hhistory⟩ := hhistory
  subst hsp
  have hchanges : w'.history.changes =
      Function.update w.history.changes id (w.history.changes id + 1) := by
    rw [hhistory]
    rfl
  refine .of_uncopied ?_ ?_ ?_ ?_ ?_
  · intro _ _ _ _ hevent _
    rw [show s.spawn = _ from hspawn] at hevent
    cases hevent
  · intro hwaiting
    rw [show s.phase = _ from hphase] at hwaiting
    cases hwaiting
  · intro id'
    rw [hchanges, hhistory]
    refine (h.copied_le id').trans ?_
    rcases eq_or_ne id' id with rfl | hne
    · rw [Function.update_self]
      exact Nat.le_succ _
    · rw [Function.update_of_ne hne]
  · exact h.unforced
  · intro parsed' id' _ hw
    obtain rfl := hwrote id' hw
    have hself : w'.history.changes_at_write i = w'.history.changes id' := by
      rw [hchanges, hhistory, Function.update_self]
      exact Function.update_self _ _ _
    refine ⟨hself.le, fun _ => ?_⟩
    simp only [hspawn]
    exact hagrees

/-- An event task has no request to answer. -/
theorem TaskSettings.of_event {event_type : String} {payload : Json} {wrote : Option String}
    (h : TaskSettings w i s) (hspawn : s.spawn = .event event_type payload) :
    TaskSettings w i { s with wrote } := by
  refine ⟨h.waiting, h.copied_le, h.copies, h.unforced, ?_, h.since_start⟩
  intro parsed id hparsed
  rw [show s.spawn = _ from hspawn] at hparsed
  cases hparsed

theorem TaskSettings.unwritten (h : TaskSettings w i s) : TaskSettings w i { s with wrote := none } := by
  refine ⟨h.waiting, h.copied_le, h.copies, h.unforced, ?_, h.since_start⟩
  intro parsed id _ hwrote
  cases hwrote

/-- The copy of an event task that no request has written since is as the stored rule. -/
theorem SettingsInv.stored (h : SettingsInv spawn g w) {event_type : String} {payload : Json}
    {rule d : RuleDoc} (hspawn : spawn i = .event event_type payload) (hm : (g i).Marked rule d)
    (hchanges : w.history.changes_at_copy i rule.id = w.history.changes rule.id) :
    ∃ d', w.rules[rule.id]? = some d' ∧ d'.settings = rule.settings := by
  obtain ⟨hcopy, hsettings, -⟩ := hm
  obtain ⟨d', hd', heq⟩ :=
    (h.task i).copies event_type payload rule.id d ((h.spawn i).trans hspawn) hcopy hchanges
  exact ⟨d', hd', heq.trans hsettings.symm⟩

/-- A request puts the rule as it wants it. -/
theorem requested_settings {doc rule : RuleDoc} (h : TaskSettings w i s)
    (hspawn : s.spawn = .request (.RuleSet doc)) (hput : s.Requested doc rule) :
    rule.settings = doc.settings := by
  cases hput with
  | created hid hdrawn hsettings => exact hsettings
  | @updated d hid hne hcopy hsettings hfired =>
    exact hsettings.trans (settings_merged (h.unforced doc d hspawn hcopy))

theorem settingsInv_put (h : SettingsInv spawn g w) {rule : RuleDoc} {a : Except String Unit}
    {wrote : Option String} (hphase : (g i).phase = .running) (hput : (g i).MayPut rule)
    (hcond : Undisturbed spawn w (.act i (.db_set rule) a))
    (hwrote : ∀ id, wrote = some id → id = rule.id) :
    SettingsInv spawn (Function.update g i { g i with wrote }) (w.put (spawn i) i rule) := by
  have hspawn := h.spawn i
  have hrunning : (g i).phase ≠ .replied := by
    rw [hphase]
    exact fun heq => nomatch heq
  unfold Undisturbed at hcond
  cases hsp : spawn i with
  | event event_type payload =>
    simp only [hsp] at hcond
    rw [hsp] at hspawn
    obtain ⟨d, hm⟩ := (Local.mayPut_event hspawn).mp hput
    obtain ⟨d', hd', hsettings⟩ := h.stored hsp hm hcond
    refine h.unchanged hphase (follows_put_event hd' hsettings) rfl rfl rfl rfl rfl rfl ?_
    exact fun htask => htask.of_event hspawn
  | request parsed =>
    simp only [hsp] at hcond
    rw [hsp] at hspawn
    cases parsed with
    | RuleSet doc =>
      have hsettings := requested_settings (h.task i) hspawn ((Local.mayPut_set hspawn).mp hput)
      refine h.follow (follows_put_request hcond) hrunning rfl (.inr fun _ _ => id) (h.started i) ?_
      refine (h.task i).written rfl hspawn hphase ⟨_, rfl⟩ hwrote ⟨rule, ?_, hsettings⟩
      change (w.rules.insert rule.id rule)[rule.id]? = some rule
      rw [Table.getElem?_insert_ite, if_pos rfl]
    | RuleGet id =>
      unfold Local.MayPut at hput
      rw [hspawn] at hput
      exact hput.elim
    | RuleList =>
      unfold Local.MayPut at hput
      rw [hspawn] at hput
      exact hput.elim
    | RuleDelete id =>
      unfold Local.MayPut at hput
      rw [hspawn] at hput
      exact hput.elim

theorem settingsInv_delete (h : SettingsInv spawn g w) {id : String} {wrote : Option String}
    (hphase : (g i).phase = .running) (hspawn : (g i).spawn = .request (.RuleDelete id))
    (hlatest : w.history.latest id = none) (hwrote : ∀ id', wrote = some id' → id' = id) :
    SettingsInv spawn (Function.update g i { g i with wrote }) (w.delete (spawn i) i id) := by
  have hsp := (h.spawn i).symm.trans hspawn
  rw [hsp]
  refine h.follow (follows_delete hlatest) ?_ rfl (.inr fun _ _ hacked => hacked) (h.started i) ?_
  · rw [hphase]
    exact fun heq => nomatch heq
  · refine (h.task i).written rfl hspawn hphase ⟨w.history.stored_marks, rfl⟩ hwrote ?_
    change (w.rules.erase id)[id]? = none
    rw [Table.getElem?_erase_ite, if_pos rfl]

/-- A dispatch changes nothing but the copy of its task, which is marked. -/
theorem settingsInv_dispatch (h : SettingsInv spawn g w) {rule : RuleDoc} {params : Json}
    (hphase : (g i).phase = .running) (hmay : (g i).MayDispatch rule params) :
    SettingsInv spawn
      (Function.update g i
        { g i with copies := Function.update (g i).copies rule.id (some rule) })
      { w with history := w.history.dispatch i rule } := by
  obtain ⟨d, ⟨hcopy, hsettings, -⟩, hevent⟩ := hmay.marked
  refine h.unchanged hphase (.same rfl rfl (fun _ _ => id) (fun _ _ => rfl) rfl fun _ _ => rfl)
    rfl rfl rfl rfl rfl rfl fun htask => ?_
  constructor
  · intro hwaiting
    rw [show (g i).phase = _ from hphase] at hwaiting
    cases hwaiting
  · exact htask.copied_le
  · intro event_type payload id d' hspawn hd' hchanges
    rcases eq_or_ne id rule.id with rfl | hne
    · simp only [Function.update_self, Option.some.injEq] at hd'
      subst hd'
      obtain ⟨d₀, hd₀, heq⟩ := htask.copies event_type payload rule.id d hspawn hcopy hchanges
      exact ⟨d₀, hd₀, heq.trans hsettings.symm⟩
    · simp only [Function.update_of_ne hne] at hd'
      exact htask.copies event_type payload id d' hspawn hd' hchanges
  · intro doc _ hspawn
    exact (hevent _ hspawn).elim
  · intro parsed _ hspawn
    exact (hevent _ hspawn).elim
  · intro event_type payload id d' before acked hspawn hd' hbefore hacked heq
    rcases eq_or_ne id rule.id with rfl | hne
    · exact htask.since_start event_type payload rule.id d before acked hspawn hcopy hbefore hacked heq
    · simp only [Function.update_of_ne hne] at hd'
      exact htask.since_start event_type payload id d' before acked hspawn hd' hbefore hacked heq

/-- The requests that an answer acknowledges. -/
theorem reply_latest (history : History) (sp : Spawn) (result : Except String Reply) :
    (history.reply i sp result).latest = history.latest ∨
      ∃ reply id, result = .ok reply ∧
        (history.reply i sp result).latest =
          Function.update history.latest id (some { task := i, rule := sp.requested id }) ∧
        ((∃ doc, sp = .request (.RuleSet doc) ∧ reply = .stored id) ∨
          sp = .request (.RuleDelete id)) := by
  unfold History.reply
  split
  · rename_i doc id
    exact .inr ⟨_, id, rfl, rfl, .inl ⟨doc, rfl, rfl⟩⟩
  · rename_i id reply
    exact .inr ⟨reply, id, rfl, rfl, .inr rfl⟩
  · exact .inl rfl

theorem settingsInv_reply (h : SettingsInv spawn g w) {result : Except String Reply} {a : Unit}
    (hphase : (g i).phase = .running) (hmay : (g i).MayReply result)
    (hcond : Undisturbed spawn w (.act i (.reply result) a)) :
    SettingsInv spawn (Function.update g i { g i with phase := .replied })
      { w with history := w.history.reply i (spawn i) result } := by
  have hrunning : (g i).phase ≠ .replied := by
    rw [hphase]
    exact fun heq => nomatch heq
  obtain ⟨latest, hhistory⟩ := reply_eq w.history i (spawn i) result
  have hlatest : ∀ id acked, latest id = some acked → w.history.latest id = some acked ∨
      acked.task = i ∧ Agrees w.rules[id]? acked.rule := by
    intro id acked hacked
    have heq : (w.history.reply i (spawn i) result).latest = latest := by rw [hhistory]
    rcases reply_latest w.history (spawn i) result with hsame | ⟨reply, id', rfl, hupdate, hkind⟩
    · rw [← heq, hsame] at hacked
      exact .inl hacked
    rw [← heq, hupdate] at hacked
    rcases eq_or_ne id id' with rfl | hne
    · rw [Function.update_self, Option.some.injEq] at hacked
      subst hacked
      refine .inr ⟨rfl, ?_⟩
      have hwritten : ∀ parsed, spawn i = .request parsed → (g i).wrote = some id →
          w.history.changes_at_write i = w.history.changes id →
          Agrees w.rules[id]? ((spawn i).requested id) := by
        intro parsed hparsed hwrote hchanges
        have hspawn := h.spawn i
        rw [← hspawn] at hparsed ⊢
        exact ((h.task i).wrote parsed id hparsed hwrote).2 hchanges
      unfold Undisturbed at hcond
      rcases hkind with ⟨doc, hsp, rfl⟩ | hsp
      · simp only [hsp] at hcond
        exact hwritten _ hsp ((Local.mayReply_set ((h.spawn i).trans hsp)).mp hmay) hcond
      · simp only [hsp] at hcond
        exact hwritten _ hsp ((Local.mayReply_delete ((h.spawn i).trans hsp)).mp hmay) hcond
    · rw [Function.update_of_ne hne] at hacked
      exact .inl hacked
  rw [hhistory]
  refine h.follow ⟨fun _ => Nat.le_refl _, fun _ _ => .inl rfl, ?_, fun _ _ => rfl, fun _ _ => rfl,
    fun _ _ => rfl⟩ hrunning rfl (.inl rfl) (h.started i) ?_
  · intro id acked hacked
    rcases hlatest id acked hacked with hold | hnew
    · exact .inl ⟨hold, rfl⟩
    · exact .inr hnew
  · have htask := h.task i
    refine ⟨fun hwaiting => (nomatch hwaiting), htask.copied_le, htask.copies, htask.unforced,
      htask.wrote, ?_⟩
    intro event_type payload id d before acked hspawn hd hbefore hacked heq
    rcases hlatest id acked hacked with hold | ⟨hself, -⟩
    · exact htask.since_start event_type payload id d before acked hspawn hd hbefore hold heq
    · have hreplied := h.started i id before hbefore
      rw [heq, hself] at hreplied
      exact (hrunning hreplied).elim

/-- What a task has read of the clock is over. -/
def ClockInv (g : Nat → Local) (w : World) : Prop :=
  ∀ i t, (g i).read = some t → t ≤ w.now

theorem serve_now {sp : Spawn} {e : Eff} {fate : Fate} : (World.serve sp i e fate w).2.now = w.now := by
  cases e <;> cases fate <;> rfl

/-- A task keeps its reading, or drops it, if it makes no other one. -/
theorem next_read {s' : Local} {e : Eff} {a : e.Answer} (h : s.Next e a s') (hnow : e ≠ .now)
    {t : Int64} (ht : s'.read = some t) : s.read = some t := by
  cases e with
  | received =>
    subst h
    exact ht
  | now => exact (hnow rfl).elim
  | db_keys =>
    subst h
    exact ht
  | db_batch_get keys =>
    cases a with
    | ok docs =>
      obtain ⟨-, rfl⟩ := h
      cases ht
    | error e =>
      subst h
      cases ht
  | db_get id =>
    cases a with
    | ok d =>
      obtain ⟨-, rfl⟩ := h
      cases ht
    | error e =>
      subst h
      cases ht
  | db_incr =>
    cases a with
    | ok n =>
      subst h
      exact ht
    | error e =>
      subst h
      exact ht
  | db_set rule =>
    subst h
    exact ht
  | db_delete id =>
    subst h
    exact ht
  | call_action rule params =>
    subst h
    exact ht
  | publish kind payload =>
    subst h
    exact ht
  | reply result =>
    subst h
    exact ht

theorem clockInv_act {e : Eff} {a : e.Answer} (h : ClockInv g w) (hw : Handle spawn i w e a w')
    (hnext : (g i).Next e a s) : ClockInv (Function.update g i s) w' := by
  obtain ⟨fate, hw⟩ := hw
  have hnow : w'.now = w.now := by
    rw [← @serve_now w i (spawn i) e fate, hw]
  intro j t ht
  rw [hnow]
  rcases eq_or_ne j i with rfl | hne
  · rw [Function.update_self] at ht
    by_cases he : e = .now
    · subst he
      obtain ⟨rfl, -⟩ := Prod.mk.inj hw
      obtain ⟨-, -, rfl⟩ := hnext
      obtain rfl := Option.some.inj ht
      exact Int64.le_refl _
    · exact h j t (next_read hnext he ht)
  · rw [Function.update_of_ne hne] at ht
    exact h j t ht

/-- One effect of a task. -/
theorem settingsInv_act {e : Eff} {a : e.Answer} (h : SettingsInv spawn g w) (hclock : ClockInv g w)
    (hallowed : (g i).Allowed e) (hw : Handle spawn i w e a w')
    (hcond : Undisturbed spawn w (.act i e a)) :
    ∃ s, (g i).Next e a s ∧ SettingsInv spawn (Function.update g i s) w' := by
  obtain ⟨fate, hw⟩ := hw
  have htask := h.task i
  have hsame : (g i).phase = .running → ∀ s : Local, s.spawn = (g i).spawn →
      (TaskSettings w i (g i) → TaskSettings w i s) →
      SettingsInv spawn (Function.update g i s) w := by
    intro hphase s hspawn hs
    exact h.unchanged hphase follows_refl rfl rfl rfl rfl rfl hspawn hs
  cases e with
  | received =>
    obtain ⟨rfl, rfl⟩ := Prod.mk.inj hw
    exact ⟨_, rfl, settingsInv_received h hallowed⟩
  | now =>
    obtain ⟨rfl, rfl⟩ := Prod.mk.inj hw
    refine ⟨_, ⟨w.now_nonneg, hclock i, rfl⟩, hsame hallowed _ rfl fun ht => ?_⟩
    exact ⟨ht.waiting, ht.copied_le, ht.copies, ht.unforced, ht.wrote, ht.since_start⟩
  | db_keys =>
    obtain ⟨rfl, rfl⟩ := Prod.mk.inj hw
    exact ⟨_, rfl, hsame hallowed _ rfl id⟩
  | db_batch_get keys =>
    obtain ⟨rfl, rfl⟩ := Prod.mk.inj hw
    obtain ⟨hphase, -⟩ := hallowed
    have hnone : ∀ s : Local, s.spawn = (g i).spawn → s.phase = .running → s.wrote = (g i).wrote →
        (s.copies = fun _ => none) →
        SettingsInv spawn (Function.update g i s) { w with history := w.history.copy i } := by
      intro s hspawn hphase' hwrote hcopies
      refine settingsInv_copy h hphase hspawn hphase' hwrote ?_ ?_
      · intro id d hd
        rw [hcopies] at hd
        cases hd
      · intro doc d _ hd
        rw [hcopies] at hd
        cases hd
    cases fate with
    | refused e => exact ⟨_, rfl, hnone _ rfl hphase rfl rfl⟩
    | applied e => exact ⟨_, rfl, hnone _ rfl hphase rfl rfl⟩
    | ok =>
      refine ⟨_, ⟨w.nodup_rows keys, rfl⟩, ?_⟩
      cases hspawn : (g i).spawn with
      | request parsed => exact hnone _ hspawn.symm hphase rfl rfl
      | event event_type payload =>
        refine settingsInv_copy h hphase hspawn.symm hphase rfl ?_ ?_
        · intro id d hd
          exact w.listing_rows hd
        · intro doc d hdoc
          cases hdoc
  | db_get id =>
    obtain ⟨rfl, rfl⟩ := Prod.mk.inj hw
    obtain ⟨hphase, -, hid⟩ := hallowed
    have hnone : SettingsInv spawn
        (Function.update g i { g i with copies := fun _ => none, read := none })
        { w with history := w.history.copy i } := by
      refine settingsInv_copy h hphase rfl hphase rfl ?_ ?_
      · intro id' d hd
        cases hd
      · intro doc d _ hd
        cases hd
    cases fate with
    | refused e => exact ⟨_, rfl, hnone⟩
    | applied e => exact ⟨_, rfl, hnone⟩
    | ok =>
      refine ⟨_, ⟨fun rule hrule => w.keyed id rule hrule, rfl⟩,
        settingsInv_copy h hphase rfl hphase rfl ?_ ?_⟩
      · intro id' d hd
        simp only at hd
        split_ifs at hd with hid'
        rw [hid']
        exact hd
      · intro doc d hdoc hd hdisabled
        have hsp := (h.spawn i).symm.trans hdoc
        unfold Undisturbed at hcond
        simp only [hsp] at hcond
        simp only [hid doc hdoc, if_pos] at hd
        have hany := hcond hdisabled
        rw [hid doc hdoc, hd] at hany
        exact hany
  | db_set rule =>
    obtain ⟨rfl, rfl⟩ := Prod.mk.inj hw
    refine ⟨_, rfl, ?_⟩
    cases fate with
    | refused e => exact hsame hallowed.1 _ rfl TaskSettings.unwritten
    | applied e =>
      exact settingsInv_put h hallowed.1 hallowed.2 hcond fun id hid => nomatch hid
    | ok =>
      exact settingsInv_put h hallowed.1 hallowed.2 hcond fun id hid => (Option.some.inj hid).symm
  | db_delete id =>
    obtain ⟨rfl, rfl⟩ := Prod.mk.inj hw
    obtain ⟨hphase, hspawn⟩ := hallowed
    refine ⟨_, rfl, ?_⟩
    cases fate with
    | refused e => exact hsame hphase _ rfl TaskSettings.unwritten
    | applied e => exact settingsInv_delete h hphase hspawn hcond fun id hid => nomatch hid
    | ok => exact settingsInv_delete h hphase hspawn hcond fun id hid => (Option.some.inj hid).symm
  | db_incr =>
    obtain ⟨rfl, rfl⟩ := Prod.mk.inj hw
    obtain ⟨hphase, -⟩ := hallowed
    have hdraw : ∀ (s : Local) (next_id : Nat) (id : String), s.spawn = (g i).spawn →
        s.phase = (g i).phase → s.copies = (g i).copies → s.wrote = (g i).wrote →
        SettingsInv spawn (Function.update g i s) { w with next_id, history := w.history.draw i id } := by
      intro s next_id id hspawn hphase' hcopies hwrote
      refine h.unchanged hphase (.same rfl rfl (fun _ _ hacked => hacked) (fun _ _ => rfl) rfl
        fun _ _ => rfl) rfl rfl rfl rfl rfl hspawn fun ht => ?_
      refine ⟨?_, ht.copied_le, ?_, ?_, ?_, ?_⟩
      · rw [hphase', hcopies]
        exact ht.waiting
      · rw [hspawn, hcopies]
        exact ht.copies
      · rw [hspawn, hcopies]
        exact ht.unforced
      · rw [hspawn, hwrote]
        exact ht.wrote
      · rw [hspawn, hcopies]
        exact ht.since_start
    cases fate with
    | refused e => exact ⟨_, rfl, hsame hphase _ rfl fun ht => ht⟩
    | applied e => exact ⟨_, rfl, hdraw _ _ _ rfl rfl rfl rfl⟩
    | ok => exact ⟨_, rfl, hdraw _ _ _ rfl rfl rfl rfl⟩
  | call_action rule params =>
    obtain ⟨rfl, rfl⟩ := Prod.mk.inj hw
    exact ⟨_, rfl, settingsInv_dispatch h hallowed.1 hallowed.2⟩
  | publish kind payload =>
    obtain ⟨rfl, rfl⟩ := Prod.mk.inj hw
    exact ⟨_, rfl, hsame hallowed _ rfl id⟩
  | reply result =>
    obtain ⟨rfl, rfl⟩ := Prod.mk.inj hw
    exact ⟨_, rfl, settingsInv_reply h hallowed.1 hallowed.2 hcond⟩

theorem settingsInv_tick {now : Int64} (h : SettingsInv spawn g w) (hw : Tick w now w') :
    SettingsInv spawn g w' := by
  cases hw with
  | tick hle =>
    refine ⟨h.spawn, h.sticks, h.latest, h.started, fun i => ?_⟩
    have ht := h.task i
    exact ⟨ht.waiting, ht.copied_le, ht.copies, ht.unforced, ht.wrote, ht.since_start⟩

/-- What a task dispatches. -/
theorem dispatch_sticks (h : SettingsInv spawn g w) {rule : RuleDoc} {params : Json}
    {a : Except String Unit} (hmay : (g i).MayDispatch rule params)
    (hcond : Undisturbed spawn w (.act i (.call_action rule params) a)) :
    DispatchSticks spawn w (.act i (.call_action rule params) a) := by
  intro acked hacked
  have hagrees := h.sticks rule.id acked hacked
  obtain ⟨stored, hstored⟩ := Option.isSome_iff_exists.mp hcond
  rw [hstored] at hagrees
  cases hreq : acked.rule with
  | none =>
    rw [hreq] at hagrees
    cases hagrees
  | some req =>
    rw [hreq] at hagrees
    obtain ⟨stored', heq, hsettings⟩ := hagrees
    obtain rfl := Option.some.inj heq
    refine ⟨req, rfl, fun before hbefore htask => ?_⟩
    have hspawn := h.spawn i
    unfold Local.MayDispatch at hmay
    cases hsp : spawn i with
    | request parsed =>
      rw [hspawn, hsp] at hmay
      exact hmay.elim
    | event event_type payload =>
      rw [hsp] at hspawn
      rw [hspawn] at hmay
      obtain ⟨d, now, hm, -, -, -, henabled, hconfirm, htrigger, hcond, hparams⟩ := hmay
      have hchanges := (h.task i).since_start event_type payload rule.id d before acked hspawn hm.1
        hbefore hacked htask
      obtain ⟨d', hd', hcopy⟩ := h.stored hsp hm hchanges
      obtain rfl := Option.some.inj (hd'.symm.trans hstored)
      have hrule : rule.settings = req.settings := hcopy.symm.trans hsettings
      refine ⟨event_type, payload, rfl, ?_, ?_, ?_, ?_, hrule, ?_⟩
      · rw [← henabled]
        exact (congrArg Settings.enabled hrule).symm
      · rw [← hconfirm]
        exact (congrArg Settings.requires_confirmation hrule).symm
      · rw [← htrigger]
        exact (congrArg (fun s => s.trigger.event_type) hrule).symm
      · rw [← hcond]
        unfold RuleDoc.conditions_hold
        rw [show req.conditions = rule.conditions from (congrArg Settings.conditions hrule).symm]
      · rw [hparams]
        unfold RuleDoc.params
        rw [show rule.action = req.action from congrArg Settings.action hrule]

/-! ## Runs -/

/-- The rule with another action. -/
def changedRule : RuleDoc :=
  { sampleRule with action := { target_action := "lamp_on", params_json := .null }, cooldown_ms := 0 }

/-- Two events, a change of the rule and its deletion. -/
def operatorTasks : Nat → Spawn
  | 1 => .request (.RuleSet changedRule)
  | 2 => .request (.RuleDelete "1")
  | _ => .event "plugin.test.fired" .null

def runOperator (cond : World → TaskLabel → Prop) [∀ w l, Decidable (cond w l)]
    (requests : List TaskRequest) : Option (List TaskLabel × Tasks) :=
  runOf (answerTask operatorTasks cond) (.start ["plugin.test.fired"] operatorTasks sampleWorld)
    requests

/-- The rule is changed; an event dispatches it; then it is deleted, and another event comes. -/
def oneAfterTheOther : List TaskRequest :=
  List.replicate 5 (.act 1 .ok) ++ List.replicate 8 (.act 0 .ok) ++ List.replicate 3 (.act 2 .ok) ++
    List.replicate 2 (.act 3 .ok)

/-- The rule is deleted while the action of an event is under way. -/
def deletedMeanwhile : List TaskRequest :=
  List.replicate 6 (.act 0 .ok) ++ List.replicate 3 (.act 2 .ok) ++ [.act 0 .ok]

end Automations
