import VynkorPlugins.Automations.Proofs.TaskProofs

/-!
# The cooldown of a rule

A copy of a rule is marked no earlier than any dispatch it knows of. A task that knows of every
dispatch so far therefore keeps the cooldown.
-/

namespace Automations

open Async Transition

variable {r : String} {c : UInt64} {w w' : World} {s s' : Local} {i : Nat}

/-! ## What the steps do to the marks -/

section

variable (h : History) (i : Nat)

@[simp] theorem receive_fired (spawn : Spawn) : (h.receive i spawn).fired = h.fired := by
  rcases spawn with _ | (_ | _ | _ | _) <;> rfl

@[simp] theorem receive_stored_marks (spawn : Spawn) :
    (h.receive i spawn).stored_marks = h.stored_marks := by
  rcases spawn with _ | (_ | _ | _ | _) <;> rfl

@[simp] theorem receive_copied_marks (spawn : Spawn) :
    (h.receive i spawn).copied_marks = h.copied_marks := by
  rcases spawn with _ | (_ | _ | _ | _) <;> rfl

@[simp] theorem change_fired (id : String) (spawn : Spawn) : (h.change i id spawn).fired = h.fired := by
  cases spawn <;> rfl

@[simp] theorem change_stored_marks (id : String) (spawn : Spawn) :
    (h.change i id spawn).stored_marks = h.stored_marks := by
  cases spawn <;> rfl

@[simp] theorem change_copied_marks (id : String) (spawn : Spawn) :
    (h.change i id spawn).copied_marks = h.copied_marks := by
  cases spawn <;> rfl

/-- An answer changes nothing but the request that is acknowledged last. -/
theorem reply_eq (spawn : Spawn) (result : Except String Reply) :
    ∃ latest, h.reply i spawn result = { h with latest } := by
  unfold History.reply
  split
  · exact ⟨_, rfl⟩
  · exact ⟨_, rfl⟩
  · exact ⟨_, rfl⟩

end

/-! ## Invariant -/

/-- The marks of a rule and its stored copy. -/
structure WorldMarks (r : String) (c : UInt64) (w : World) : Prop where
  spaced : (w.history.fired r).Pairwise fun a b => (c.toNat : Int) ≤ a.toInt - b.toInt
  fired : ∀ t ∈ w.history.fired r, 0 ≤ t ∧ t ≤ w.now
  known : ∀ t ∈ w.history.stored_marks r, t ∈ w.history.fired r
  stored : ∀ d, w.rules[r]? = some d →
    d.cooldown_ms = c ∧ ∀ t ∈ w.history.stored_marks r, t ≤ d.last_fired_ms

/-- What the copy of a task knows of the marks. -/
structure TaskMarks (r : String) (c : UInt64) (s : Local) (copied : List Int64) (w : World) : Prop where
  known : ∀ t ∈ copied, t ∈ w.history.fired r
  copies : ∀ d, s.copies r = some d → d.cooldown_ms = c ∧ ∀ t ∈ copied, t ≤ d.last_fired_ms
  read : ∀ t, s.read = some t → 0 ≤ t ∧ t ≤ w.now ∧ ∀ m ∈ copied, m ≤ t
  drawn : s.drawn = some r → copied = [] ∧ ∃ parsed, s.spawn = .request parsed

/-- The marks as long as the world only goes on. -/
structure GoesOn (r : String) (w w' : World) : Prop where
  fired : ∀ t ∈ w.history.fired r, t ∈ w'.history.fired r
  now : w.now ≤ w'.now

theorem TaskMarks.mono {copied : List Int64} (h : TaskMarks r c s copied w) (hw : GoesOn r w w') :
    TaskMarks r c s copied w' where
  known t ht := hw.fired t (h.known t ht)
  copies := h.copies
  read t ht := by
    obtain ⟨h0, hnow, hle⟩ := h.read t ht
    exact ⟨h0, Int64.le_trans hnow hw.now, hle⟩
  drawn := h.drawn

/-- The state of every task, and the world. -/
structure CooldownInv (spawn : Nat → Spawn) (r : String) (c : UInt64) (g : Nat → Local) (w : World) :
    Prop where
  spawn : ∀ i, (g i).spawn = spawn i
  world : WorldMarks r c w
  task : ∀ i, TaskMarks r c (g i) (w.history.copied_marks i r) w

theorem CooldownInv.update {spawn : Nat → Spawn} {g : Nat → Local} (h : CooldownInv spawn r c g w)
    (hs : s.spawn = (g i).spawn) (hw : GoesOn r w w') (hworld : WorldMarks r c w')
    (hcopied : ∀ j, j ≠ i → w'.history.copied_marks j r = w.history.copied_marks j r)
    (htask : TaskMarks r c s (w'.history.copied_marks i r) w') :
    CooldownInv spawn r c (Function.update g i s) w' := by
  constructor
  · intro j
    rcases eq_or_ne j i with rfl | hne
    · rw [Function.update_self, hs]
      exact h.spawn j
    · rw [Function.update_of_ne hne]
      exact h.spawn j
  · exact hworld
  · intro j
    rcases eq_or_ne j i with rfl | hne
    · rw [Function.update_self]
      exact htask
    · rw [Function.update_of_ne hne, hcopied j hne]
      exact (h.task j).mono hw

/-! ## One step -/

/-- A world that has changed in what no mark depends on. -/
theorem WorldMarks.congr (h : WorldMarks r c w) (hrules : w'.rules[r]? = w.rules[r]?)
    (hnow : w'.now = w.now) (hfired : w'.history.fired r = w.history.fired r)
    (hstored : w'.history.stored_marks r = w.history.stored_marks r) : WorldMarks r c w' := by
  constructor
  · rw [hfired]
    exact h.spaced
  · rw [hfired, hnow]
    exact h.fired
  · rw [hfired, hstored]
    exact h.known
  · rw [hrules, hstored]
    exact h.stored

/-- The rule that is put has the cooldown and, of the marks that its task knows of, none later than
    its own. -/
theorem WorldMarks.put {spawn : Spawn} {rule : RuleDoc} (h : WorldMarks r c w)
    (hknown : ∀ t ∈ w.history.copied_marks i r, t ∈ w.history.fired r)
    (hrule : rule.id = r → rule.cooldown_ms = c ∧
      ∀ t ∈ w.history.copied_marks i r, t ≤ rule.last_fired_ms) :
    WorldMarks r c (w.put spawn i rule) := by
  have hfired : (w.put spawn i rule).history.fired = w.history.fired :=
    change_fired _ i rule.id spawn
  have hstored : (w.put spawn i rule).history.stored_marks =
      Function.update w.history.stored_marks rule.id (w.history.copied_marks i rule.id) :=
    change_stored_marks _ i rule.id spawn
  rcases eq_or_ne r rule.id with rfl | hne
  · constructor
    · rw [hfired]
      exact h.spaced
    · rw [hfired]
      exact h.fired
    · rw [hfired, hstored, Function.update_self]
      exact hknown
    · intro d hd
      change (w.rules.insert rule.id rule)[rule.id]? = some d at hd
      rw [Table.getElem?_insert_ite, if_pos rfl] at hd
      obtain rfl := Option.some.inj hd
      rw [hstored, Function.update_self]
      exact hrule rfl
  · refine h.congr ?_ rfl (by rw [hfired]) ?_
    · change (w.rules.insert rule.id rule)[r]? = _
      rw [Table.getElem?_insert_ite, if_neg hne.symm]
    · rw [hstored, Function.update_of_ne hne]

theorem WorldMarks.delete {spawn : Spawn} {id : String} (h : WorldMarks r c w) :
    WorldMarks r c (w.delete spawn i id) := by
  have hfired : (w.delete spawn i id).history.fired = w.history.fired := change_fired _ i id spawn
  have hstored : (w.delete spawn i id).history.stored_marks = w.history.stored_marks :=
    change_stored_marks _ i id spawn
  constructor
  · rw [hfired]
    exact h.spaced
  · rw [hfired]
    exact h.fired
  · rw [hfired, hstored]
    exact h.known
  · intro d hd
    change (w.rules.erase id)[r]? = some d at hd
    rw [Table.getElem?_erase_ite] at hd
    split_ifs at hd
    rw [hstored]
    exact h.stored d hd

/-- The marks that a copy knows of are a cooldown away from a mark that the copy allows. -/
theorem spaced_of_cooldown_ok {d : RuleDoc} {now mark : Int64} (hmax : c.toNat < 2 ^ 63)
    (hcooldown : d.cooldown_ms = c) (hok : d.cooldown_ok now = true) (hnow : 0 ≤ now)
    (hle : now ≤ mark) {t : Int64} (ht : 0 ≤ t) (hlast : t ≤ d.last_fired_ms) (hmark : t ≤ mark) :
    (c.toNat : Int) ≤ mark.toInt - t.toInt := by
  unfold RuleDoc.cooldown_ok at hok
  rw [hcooldown, Bool.or_eq_true, decide_eq_true_eq, decide_eq_true_eq] at hok
  rw [Int64.le_iff_toInt_le] at hle hlast hmark
  rcases hok with hzero | hok
  · rw [hzero]
    simp only [UInt64.toNat_zero, Int.natCast_zero]
    omega
  · rw [Int64.le_iff_toInt_le, Rust.toInt_toInt64 hmax,
      Rust.toInt_sub_of_nonneg hnow (Int64.le_trans ht (Int64.le_iff_toInt_le.mpr hlast))] at hok
    omega

/-- A task keeps what it knows of the marks if it keeps its copies and its id. -/
theorem TaskMarks.congr {copied : List Int64} (h : TaskMarks r c s copied w)
    (hspawn : s'.spawn = s.spawn) (hcopies : s'.copies = s.copies) (hread : s'.read = s.read) (hdrawn : s'.drawn = s.drawn) :
    TaskMarks r c s' copied w := by
  refine ⟨h.known, ?_, ?_, ?_⟩
  · rw [hcopies]
    exact h.copies
  · rw [hread]
    exact h.read
  · rw [hdrawn, hspawn]
    exact h.drawn

/-- What a task has read is what is stored. -/
theorem TaskMarks.of_read (h : WorldMarks r c w)
    (hcopies : ∀ d, s.copies r = some d → w.rules[r]? = some d) (hread : s.read = none)
    (hdrawn : s.drawn = none) : TaskMarks r c s (w.history.stored_marks r) w := by
  refine ⟨h.known, ?_, ?_, ?_⟩
  · intro d hd
    exact h.stored d (hcopies d hd)
  · intro t ht
    rw [hread] at ht
    cases ht
  · intro ht
    rw [hdrawn] at ht
    cases ht

/-- The rule that a task may put. -/
theorem put_allowed {spawn : Nat → Spawn} {g : Nat → Local} {rule : RuleDoc}
    {a : Except String Unit} (h : CooldownInv spawn r c g w) (hput : (g i).MayPut rule)
    (hkeeps : KeepsCooldown spawn r c (.act i (.db_set rule) a)) (hid : rule.id = r) :
    rule.cooldown_ms = c ∧ ∀ t ∈ w.history.copied_marks i r, t ≤ rule.last_fired_ms := by
  have htask := h.task i
  have hspawn := h.spawn i
  unfold KeepsCooldown at hkeeps
  cases hsp : spawn i with
  | event event_type payload =>
    rw [hsp] at hspawn
    obtain ⟨d, hcopy, hsettings, hread⟩ := (Local.mayPut_event hspawn).mp hput
    rw [hid] at hcopy
    refine ⟨?_, (htask.read _ hread).2.2⟩
    exact (congrArg Settings.cooldown_ms hsettings).trans (htask.copies d hcopy).1
  | request parsed =>
    simp only [hsp] at hkeeps
    rw [hsp] at hspawn
    refine ⟨hkeeps hid, ?_⟩
    cases parsed with
    | RuleSet doc =>
      cases (Local.mayPut_set hspawn).mp hput with
      | created hempty hdrawn hsettings =>
        rw [hid] at hdrawn
        rw [(htask.drawn hdrawn).1]
        exact fun t ht => nomatch ht
      | @updated d hid' hne hcopy hsettings hfired =>
        rw [hfired]
        rw [← hid', hid] at hcopy
        exact (htask.copies d hcopy).2
    | RuleGet id =>
      unfold Local.MayPut at hput
      rw [hspawn] at hput
      exact hput.elim
    | RuleList =>
      unfold Local.MayPut at hput
      rw [hspawn] at hput
      exact hput.elim
    | RuleDelete id =>
      unfold Local.MayPut at hput
      rw [hspawn] at hput
      exact hput.elim

/-- A dispatch of a task that knows of every dispatch so far. -/
theorem WorldMarks.dispatch {g : Nat → Local} {spawn : Nat → Spawn} {rule : RuleDoc} {params : Json}
    (hmax : c.toNat < 2 ^ 63) (h : CooldownInv spawn r c g w) (hmay : (g i).MayDispatch rule params)
    (hknown : rule.id = r → w.history.copied_marks i r = w.history.fired r) :
    WorldMarks r c { w with history := w.history.dispatch i rule } := by
  rcases eq_or_ne r rule.id with rfl | hne
  · unfold Local.MayDispatch at hmay
    split at hmay
    · obtain ⟨d, now, ⟨hcopy, hsettings, hread⟩, hok, hnow, hle, -⟩ := hmay
      obtain ⟨hcooldown, hlast⟩ := (h.task i).copies d hcopy
      obtain ⟨h0, hmark, hread⟩ := (h.task i).read _ hread
      rw [hknown rfl] at hlast hread
      have hfired : (w.history.dispatch i rule).fired rule.id =
          rule.last_fired_ms :: w.history.fired rule.id := Function.update_self _ _ _
      constructor
      · rw [hfired, List.pairwise_cons]
        refine ⟨fun t ht => ?_, h.world.spaced⟩
        exact spaced_of_cooldown_ok hmax hcooldown hok hnow hle (h.world.fired t ht).1 (hlast t ht)
          (hread t ht)
      · rw [hfired]
        intro t ht
        rcases List.mem_cons.mp ht with rfl | ht
        · exact ⟨h0, hmark⟩
        · exact h.world.fired t ht
      · rw [hfired]
        intro t ht
        exact List.mem_cons_of_mem _ (h.world.known t ht)
      · exact h.world.stored
    · exact hmay.elim
  · exact h.world.congr rfl rfl (Function.update_of_ne hne _ _) rfl

/-- What the task of a dispatch knows after it. -/
theorem TaskMarks.dispatch {rule : RuleDoc} {d : RuleDoc}
    (h : TaskMarks r c s (w.history.copied_marks i r) w) (hm : s.Marked rule d)
    (hspawn : ∀ parsed, s.spawn ≠ .request parsed) :
    TaskMarks r c { s with copies := Function.update s.copies rule.id (some rule) }
      ((w.history.dispatch i rule).copied_marks i r)
      { w with history := w.history.dispatch i rule } := by
  have hcopied : (w.history.dispatch i rule).copied_marks i =
      Function.update (w.history.copied_marks i) rule.id
        (rule.last_fired_ms :: w.history.copied_marks i rule.id) := Function.update_self _ _ _
  have hfired : (w.history.dispatch i rule).fired =
      Function.update w.history.fired rule.id (rule.last_fired_ms :: w.history.fired rule.id) := rfl
  rcases eq_or_ne r rule.id with rfl | hne
  · obtain ⟨hcopy, hsettings, hread⟩ := hm
    obtain ⟨h0, hnow, hle⟩ := h.read _ hread
    rw [hcopied, Function.update_self]
    constructor
    · intro t ht
      rw [hfired, Function.update_self]
      rcases List.mem_cons.mp ht with rfl | ht
      · exact List.mem_cons_self
      · exact List.mem_cons_of_mem _ (h.known t ht)
    · intro d' hd'
      simp only [Function.update_self, Option.some.injEq] at hd'
      subst hd'
      refine ⟨(congrArg Settings.cooldown_ms hsettings).trans (h.copies d hcopy).1, fun t ht => ?_⟩
      rcases List.mem_cons.mp ht with rfl | ht
      · exact Int64.le_refl _
      · exact hle t ht
    · intro t ht
      obtain rfl := Option.some.inj (hread.symm.trans ht)
      refine ⟨h0, hnow, fun m hm => ?_⟩
      rcases List.mem_cons.mp hm with rfl | hm
      · exact Int64.le_refl _
      · exact hle m hm
    · intro hdrawn
      obtain ⟨-, parsed, hparsed⟩ := h.drawn hdrawn
      exact (hspawn parsed hparsed).elim
  · rw [hcopied, Function.update_of_ne hne]
    constructor
    · rw [hfired, Function.update_of_ne hne]
      exact h.known
    · intro d' hd'
      simp only [Function.update_of_ne hne] at hd'
      exact h.copies d' hd'
    · exact h.read
    · exact h.drawn

/-- A step that changes no marks, and nothing of a task but what it is about to answer. -/
theorem CooldownInv.unchanged {spawn : Nat → Spawn} {g : Nat → Local} (h : CooldownInv spawn r c g w)
    (hspawn : s.spawn = (g i).spawn) (hcopies : s.copies = (g i).copies) (hread : s.read = (g i).read)
    (hdrawn : s.drawn = (g i).drawn) (hworld : WorldMarks r c w') (hnow : w'.now = w.now)
    (hfired : w'.history.fired = w.history.fired)
    (hcopied : w'.history.copied_marks = w.history.copied_marks) :
    CooldownInv spawn r c (Function.update g i s) w' := by
  have hw : GoesOn r w w' := by
    refine ⟨?_, ?_⟩
    · rw [hfired]
      exact fun t ht => ht
    · rw [hnow]
      exact Int64.le_refl _
  refine h.update hspawn hw hworld ?_ ?_
  · intro j _
    rw [hcopied]
  · rw [hcopied]
    exact ((h.task i).congr hspawn hcopies hread hdrawn).mono hw

/-- A task reads the rules. -/
theorem CooldownInv.copy {spawn : Nat → Spawn} {g : Nat → Local} (h : CooldownInv spawn r c g w)
    (hspawn : s.spawn = (g i).spawn) (hread : s.read = none) (hdrawn : s.drawn = none)
    (hcopies : ∀ d, s.copies r = some d → w.rules[r]? = some d) :
    CooldownInv spawn r c (Function.update g i s) { w with history := w.history.copy i } := by
  refine h.update hspawn ⟨fun t ht => ht, Int64.le_refl _⟩ (h.world.congr rfl rfl rfl rfl) ?_ ?_
  · intro j hne
    exact congrFun (Function.update_of_ne hne _ _) r
  · have hcopied : (w.history.copy i).copied_marks i = w.history.stored_marks :=
      Function.update_self _ _ _
    simp only [hcopied]
    have hread' := TaskMarks.of_read h.world hcopies hread hdrawn
    exact ⟨hread'.known, hread'.copies, hread'.read, hread'.drawn⟩

/-- An id is drawn for a new rule: its dispatches are not known of. -/
theorem CooldownInv.draw {spawn : Nat → Spawn} {g : Nat → Local} {id : String} {next_id : Nat}
    {parsed : AutomationRequest} (h : CooldownInv spawn r c g w)
    (hspawn : s.spawn = (g i).spawn) (hcopies : s.copies = (g i).copies) (hread : s.read = (g i).read)
    (hparsed : (g i).spawn = .request parsed) (hdrawn : s.drawn = (g i).drawn ∨ s.drawn = some id) :
    CooldownInv spawn r c (Function.update g i s)
      { w with next_id, history := w.history.draw i id } := by
  have hcopied : (w.history.draw i id).copied_marks i =
      Function.update (w.history.copied_marks i) id [] := Function.update_self _ _ _
  have htask := h.task i
  refine h.update hspawn ⟨fun t ht => ht, Int64.le_refl _⟩ (h.world.congr rfl rfl rfl rfl) ?_ ?_
  · intro j hne
    exact congrFun (Function.update_of_ne hne _ _) r
  · simp only [hcopied]
    rcases eq_or_ne r id with rfl | hne
    · rw [Function.update_self]
      refine ⟨fun t ht => (List.not_mem_nil ht).elim, fun d hd => ?_, fun t ht => ?_, fun _ => ⟨rfl, parsed, ?_⟩⟩
      · rw [hcopies] at hd
        exact ⟨(htask.copies d hd).1, fun t ht => (List.not_mem_nil ht).elim⟩
      · rw [hread] at ht
        obtain ⟨h0, hnow, -⟩ := htask.read t ht
        exact ⟨h0, hnow, fun m hm => (List.not_mem_nil hm).elim⟩
      · rw [hspawn, hparsed]
    · rw [Function.update_of_ne hne]
      refine ⟨htask.known, ?_, ?_, fun hd => ?_⟩
      · rw [hcopies]
        exact htask.copies
      · rw [hread]
        exact htask.read
      · rcases hdrawn with hdrawn | hdrawn
        · rw [hspawn]
          exact htask.drawn (hdrawn.symm.trans hd)
        · rw [hdrawn] at hd
          exact (hne (Option.some.inj hd).symm).elim

/-- One effect of a task. -/
theorem cooldownInv_act {spawn : Nat → Spawn} {g : Nat → Local} {e : Eff} {a : e.Answer}
    (hmax : c.toNat < 2 ^ 63) (h : CooldownInv spawn r c g w) (hallowed : (g i).Allowed e)
    (hw : Handle spawn i w e a w') (hknown : Informed w r (.act i e a))
    (hkeeps : KeepsCooldown spawn r c (.act i e a)) :
    ∃ s, (g i).Next e a s ∧ CooldownInv spawn r c (Function.update g i s) w' := by
  obtain ⟨fate, hw⟩ := hw
  have htask := h.task i
  cases e with
  | received =>
    obtain ⟨rfl, rfl⟩ := Prod.mk.inj hw
    refine ⟨_, rfl, h.unchanged rfl rfl rfl rfl ?_ rfl ?_ ?_⟩
    · exact h.world.congr rfl rfl (by rw [receive_fired]) (by rw [receive_stored_marks])
    · exact receive_fired _ i _
    · exact receive_copied_marks _ i _
  | now =>
    obtain ⟨rfl, rfl⟩ := Prod.mk.inj hw
    refine ⟨_, ⟨w.now_nonneg, fun t ht => (htask.read t ht).2.1, rfl⟩,
      h.update rfl ⟨fun t ht => ht, Int64.le_refl _⟩ h.world (fun _ _ => rfl)
        ⟨htask.known, htask.copies, ?_, htask.drawn⟩⟩
    intro t ht
    obtain rfl := Option.some.inj ht
    exact ⟨w.now_nonneg, Int64.le_refl _, fun m hm => (h.world.fired m (htask.known m hm)).2⟩
  | db_keys =>
    obtain ⟨rfl, rfl⟩ := Prod.mk.inj hw
    exact ⟨_, rfl, h.unchanged rfl rfl rfl rfl h.world rfl rfl rfl⟩
  | db_batch_get keys =>
    obtain ⟨rfl, rfl⟩ := Prod.mk.inj hw
    obtain ⟨-, hdrawn⟩ := hallowed
    have hnone : ∀ s : Local, s.spawn = (g i).spawn → (s.copies = fun _ => none) → s.read = none →
        s.drawn = (g i).drawn →
        CooldownInv spawn r c (Function.update g i s) { w with history := w.history.copy i } := by
      intro s hspawn hcopies hread hdrawn'
      refine h.copy hspawn hread (hdrawn'.trans hdrawn) fun d hd => ?_
      rw [hcopies] at hd
      cases hd
    cases fate with
    | refused e => exact ⟨_, rfl, hnone _ rfl rfl rfl rfl⟩
    | applied e => exact ⟨_, rfl, hnone _ rfl rfl rfl rfl⟩
    | ok =>
      refine ⟨_, ⟨w.nodup_rows keys, rfl⟩, ?_⟩
      cases hspawn : (g i).spawn with
      | request parsed => exact hnone _ hspawn.symm rfl rfl rfl
      | event event_type payload =>
        refine h.copy hspawn.symm rfl hdrawn fun d hd => ?_
        exact w.listing_rows hd
  | db_get id =>
    obtain ⟨rfl, rfl⟩ := Prod.mk.inj hw
    obtain ⟨-, hdrawn, -⟩ := hallowed
    have hnone : CooldownInv spawn r c
        (Function.update g i { g i with copies := fun _ => none, read := none })
        { w with history := w.history.copy i } := by
      refine h.copy rfl rfl hdrawn fun d hd => ?_
      cases hd
    cases fate with
    | refused e => exact ⟨_, rfl, hnone⟩
    | applied e => exact ⟨_, rfl, hnone⟩
    | ok =>
      refine ⟨_, ⟨fun rule hrule => w.keyed id rule hrule, rfl⟩, h.copy rfl rfl hdrawn fun d hd => ?_⟩
      simp only at hd
      split_ifs at hd with hid
      rw [hid]
      exact hd
  | db_set rule =>
    obtain ⟨rfl, rfl⟩ := Prod.mk.inj hw
    refine ⟨_, rfl, ?_⟩
    cases fate with
    | refused e => exact h.unchanged rfl rfl rfl rfl h.world rfl rfl rfl
    | ok | applied e =>
      refine h.unchanged rfl rfl rfl rfl ?_ rfl (change_fired _ i _ _) (change_copied_marks _ i _ _)
      exact h.world.put htask.known fun hid => put_allowed h hallowed.2 hkeeps hid
  | db_delete id =>
    obtain ⟨rfl, rfl⟩ := Prod.mk.inj hw
    refine ⟨_, rfl, ?_⟩
    cases fate with
    | refused e => exact h.unchanged rfl rfl rfl rfl h.world rfl rfl rfl
    | ok | applied e =>
      refine h.unchanged rfl rfl rfl rfl ?_ rfl (change_fired _ i _ _) (change_copied_marks _ i _ _)
      exact h.world.delete
  | db_incr =>
    obtain ⟨rfl, rfl⟩ := Prod.mk.inj hw
    obtain ⟨-, parsed, hspawn⟩ := hallowed
    cases fate with
    | refused e => exact ⟨_, rfl, h.unchanged rfl rfl rfl rfl h.world rfl rfl rfl⟩
    | ok => exact ⟨_, rfl, h.draw rfl rfl rfl hspawn (.inr rfl)⟩
    | applied e => exact ⟨_, rfl, h.draw rfl rfl rfl hspawn (.inl rfl)⟩
  | call_action rule params =>
    obtain ⟨rfl, rfl⟩ := Prod.mk.inj hw
    refine ⟨_, rfl, h.update rfl ⟨?_, Int64.le_refl _⟩ ?_ ?_ ?_⟩
    · intro t ht
      change t ∈ Function.update w.history.fired rule.id _ r
      rcases eq_or_ne r rule.id with rfl | hne
      · rw [Function.update_self]
        exact List.mem_cons_of_mem _ ht
      · rw [Function.update_of_ne hne]
        exact ht
    · exact .dispatch hmax h hallowed.2 hknown
    · intro j hne
      exact congrFun (Function.update_of_ne hne _ _) r
    · obtain ⟨d, hm, hspawn⟩ := hallowed.2.marked
      exact htask.dispatch hm hspawn
  | publish kind payload =>
    obtain ⟨rfl, rfl⟩ := Prod.mk.inj hw
    exact ⟨_, rfl, h.unchanged rfl rfl rfl rfl h.world rfl rfl rfl⟩
  | reply result =>
    obtain ⟨rfl, rfl⟩ := Prod.mk.inj hw
    obtain ⟨latest, hlatest⟩ := reply_eq w.history i (spawn i) result
    refine ⟨_, rfl, h.unchanged rfl rfl rfl rfl ?_ rfl ?_ ?_⟩
    · exact h.world.congr rfl rfl (by rw [hlatest]) (by rw [hlatest])
    · simp only [hlatest]
    · simp only [hlatest]

theorem cooldownInv_tick {spawn : Nat → Spawn} {g : Nat → Local} {now : Int64}
    (h : CooldownInv spawn r c g w) (hw : Tick w now w') : CooldownInv spawn r c g w' := by
  cases hw with
  | tick hle =>
    refine ⟨h.spawn, ⟨h.world.spaced, ?_, h.world.known, h.world.stored⟩, fun i => ?_⟩
    · intro t ht
      obtain ⟨h0, hnow⟩ := h.world.fired t ht
      exact ⟨h0, Int64.le_trans hnow hle⟩
    · exact (h.task i).mono ⟨fun t ht => ht, hle⟩

theorem cooldownInv_start (spawn : Nat → Spawn)
    (hstored : ∀ d, w.rules[r]? = some d → d.cooldown_ms = c) :
    CooldownInv spawn r c (fun i => .start (spawn i)) { w with history := .empty } := by
  constructor
  · intro i
    rfl
  · refine ⟨List.Pairwise.nil, ?_, ?_, fun d hd => ⟨hstored d hd, ?_⟩⟩
    · exact fun t ht => nomatch ht
    · exact fun t ht => nomatch ht
    · exact fun t ht => nomatch ht
  · intro i
    constructor
    · exact fun t ht => nomatch ht
    · exact fun d hd => nomatch hd
    · exact fun t ht => nomatch ht
    · exact fun hd => nomatch hd

/-! ## Runs -/

/-- Any two dispatches of a rule are its cooldown apart, if the cooldown is at most the largest `i64`
    and each dispatch is made from a copy that knows of every earlier one. -/
theorem cooldown_respected {subscribed : List String} {spawn : Nat → Spawn} {w₀ : World}
    {trace : List TaskLabel} {p : Tasks} (hmax : c.toNat < 2 ^ 63)
    (hstored : ∀ d, w₀.rules[r]? = some d → d.cooldown_ms = c)
    (hrun : Run (Where (fun p l => Marked spawn r c p.world l) (TaskStep spawn))
      (.start subscribed spawn w₀) trace p) : Spaced p.world r c := by
  have hinv : PoolInv taskProtocol (fun _ _ _ => True) (fun g _ w => CooldownInv spawn r c g w)
      trace p := by
    refine hrun.invariant ?_ fun trace p l p' hp hstep => ?_
    · refine ⟨fun i => .start (spawn i), cooldownInv_start spawn hstored, fun i => ?_⟩
      exact obeys_task subscribed (spawn i)
    · have hcond : Marked spawn r c p.world l := hstep.2
      refine hp.step ?_ ?_ (hstep.1.where _ hcond)
      · intro g trace w i e a w' h hallowed hw
        exact cooldownInv_act hmax h hallowed hw.1 hw.2.1 hw.2.2
      · intro g trace w l w' h hw
        exact cooldownInv_tick h hw.1
  obtain ⟨g, h, -⟩ := hinv
  refine h.world.spaced.imp fun hab => ?_
  omega

/-! ## Two events -/

def sampleRule : RuleDoc where
  id := "1"
  name := "alert"
  enabled := true
  trigger := { event_type := "plugin.test.fired" }
  conditions := []
  action := { target_action := "notify_send", params_json := .null }
  requires_confirmation := false
  cooldown_ms := 60000
  last_fired_ms := 0
  last_error := ""
  fire_count := 0
  created_at_ms := 0
  updated_at_ms := 0

def sampleWorld : World where
  rules := (∅ : Table String RuleDoc).insert "1" sampleRule
  keyed id rule h := by
    rw [Table.getElem?_insert_ite] at h
    split_ifs at h with hid
    · obtain rfl := Option.some.inj h
      exact hid
    · simp at h
  next_id := 1
  now := 1000000
  now_nonneg := by decide
  history := .empty

/-- Each task is for the event that the rule waits for. -/
def testFired (_ : Nat) : Spawn := .event "plugin.test.fired" .null

/-- The tasks move as they are told. -/
def runEvents (cond : World → TaskLabel → Prop) [∀ w l, Decidable (cond w l)]
    (requests : List TaskRequest) : Option (List TaskLabel × Tasks) :=
  runOf (answerTask testFired cond) (.start ["plugin.test.fired"] testFired sampleWorld) requests

/-- The second event comes when the first one is dealt with and the cooldown is over. -/
def eventsApart : List TaskRequest :=
  List.replicate 8 (.act 0 .ok) ++ [.tick 1060000] ++ List.replicate 8 (.act 1 .ok)

theorem cooldown_respected_sample : ∃ r,
    runEvents (Marked testFired "1" 60000) eventsApart = some r ∧
    (r.2.world.history.fired "1").length = 2 ∧ Spaced r.2.world "1" 60000 := by
  have hsome : ((runEvents (Marked testFired "1" 60000) eventsApart).any fun r =>
      (r.2.world.history.fired "1").length = 2) = true := by
    decide +kernel
  obtain ⟨r, hr, hlength⟩ := (Option.any_eq_true _ _).mp hsome
  refine ⟨r, hr, of_decide_eq_true hlength, cooldown_respected (by decide) ?_
    (run_runOf (fun _ _ _ _ h => taskStep_answerTask h) hr)⟩
  intro d hd
  change ((∅ : Table String RuleDoc).insert "1" sampleRule)["1"]? = some d at hd
  rw [Table.getElem?_insert_ite, if_pos rfl] at hd
  obtain rfl := Option.some.inj hd
  rfl

/-- Both events list the rule before either of them marks it. -/
def eventsTogether : List TaskRequest :=
  List.replicate 3 (.act 0 .ok) ++ List.replicate 3 (.act 1 .ok) ++ List.replicate 3 (.act 0 .ok) ++
    List.replicate 3 (.act 1 .ok)

/-- The rule is dispatched twice in one millisecond. -/
theorem overlapping_events_dispatch_twice :
    ((runEvents (fun _ l => KeepsCooldown testFired "1" 60000 l) eventsTogether).any fun r =>
      r.2.world.history.fired "1" = [1000000, 1000000] ∧ ¬ Spaced r.2.world "1" 60000) = true := by
  decide +kernel

end Automations
