import VynkorPlugins.Secrets.Vault

/-!
# Proofs: acknowledged secrets are kept

As long as no vault replaces another one and no write fails, the file of a caller is what its acknowledged
requests make of it one after another, and its vault in memory is the same between two writes.
-/

namespace Secrets

open Transition

/-- What a step can do. -/
inductive StepCases (limits : Limits) (s : World) : Label → World → Prop
  | refused {i req e} : s.tasks i = .received req → limits.prepare req = .error e →
      StepCases limits s (.begin i) (s.goto i (.answered (.error e)))
  | found {i req c op v} : s.tasks i = .received req → limits.prepare req = .ok (c, op) →
      s.registry[c]? = some v → StepCases limits s (.begin i) (s.goto i (.lock c op v))
  | missing {i req c op} : s.tasks i = .received req → limits.prepare req = .ok (c, op) →
      s.registry[c]? = none → StepCases limits s (.begin i) (s.goto i (.load c op))
  | loaded {i c op} : s.tasks i = .load c op →
      StepCases limits s (.load i none) (s.goto i (.register c op (s.file c)))
  | unreadable {i c op e} : s.tasks i = .load c op →
      StepCases limits s (.load i (some e)) (s.goto i (.answered (.error e)))
  | registered {i c op secrets} : s.tasks i = .register c op secrets →
      StepCases limits s (.register i) (s.register i c op secrets)
  | locked {i c op v vault} : s.tasks i = .lock c op v → s.vaults[v]? = some vault →
      vault.locked = false → StepCases limits s (.lock i) (s.lockVault i c op v vault)
  | persisted {i c op reply v vault failure} : s.tasks i = .persist c op reply v →
      s.vaults[v]? = some vault →
      StepCases limits s (.persist i failure) (s.persist i c op reply v vault failure)

/-- The task of a step. -/
def Label.task : Label → Nat
  | .begin i | .load i _ | .register i | .lock i | .persist i _ => i

variable {limits : Limits} {files : Table String Contents} {s s' : World} {i j v w : Nat}
  {c c' : String} {op : Op} {reply : Reply} {secrets : Contents} {vault : Vault} {task : Task}

/-! ## Requests one after another -/

/-- What some acknowledged requests make of the secrets of a caller, if each answer is the right one. -/
def replay : Contents → List Ack → Option Contents
  | secrets, [] => some secrets
  | secrets, ack :: acks =>
    if (ack.op.apply secrets).2 = ack.reply then replay (ack.op.apply secrets).1 acks else none

theorem replay_append {acks : List Ack} {ack : Ack} {secrets' : Contents}
    (h : replay secrets acks = some secrets') (hreply : (ack.op.apply secrets').2 = ack.reply) :
    replay secrets (acks ++ [ack]) = some (ack.op.apply secrets').1 := by
  induction acks generalizing secrets with
  | nil =>
    obtain rfl := Option.some.inj h
    rw [List.nil_append, replay, if_pos hreply, replay]
  | cons a acks ih =>
    rw [replay] at h
    split_ifs at h with ha
    rw [List.cons_append, replay, if_pos ha]
    exact ih h

/-- A request that is not written to the file has not changed the secrets. -/
theorem Op.apply_of_not_persists (h : op.persists secrets = false) : (op.apply secrets).1 = secrets := by
  cases op with
  | set name value => cases h
  | get name => rfl
  | list => rfl
  | delete name =>
    refine Std.ExtTreeMap.ext_getElem? fun name' => ?_
    rw [Op.apply, Table.getElem?_erase_ite]
    split_ifs with hname
    · rw [← hname]
      exact (Std.ExtTreeMap.getElem?_eq_none_of_contains_eq_false h).symm
    · rfl

namespace World

/-- The acknowledged requests of a caller. -/
def acksOf (s : World) (c : String) : List Ack :=
  s.acks.filter fun ack => ack.caller = c

end World

/-- The vault that a task has been given, and its caller. -/
def Task.vault? : Task → Option (String × Nat)
  | .lock c _ v => some (c, v)
  | .persist c _ _ v => some (c, v)
  | _ => none

/-! ## The invariant -/

/-- A write of a vault is in progress. -/
def Task.writes (v : Nat) : Task → Prop
  | .persist _ _ _ w => w = v
  | _ => False

/-- There is one vault for each caller in memory, which is its file but for the write in progress, and the
    files are what was acknowledged. -/
structure Inv (files : Table String Contents) (s : World) : Prop where
  registered : ∀ (c : String) (v : Nat), s.registry[c]? = some v ↔
    ∃ vault, s.vaults[v]? = some vault ∧ vault.caller = c
  given : ∀ i c v, (s.tasks i).vault? = some (c, v) → s.registry[c]? = some v
  fresh : ∀ i c op secrets, s.tasks i = .register c op secrets → s.registry[c]? = none →
    secrets = s.file c
  unlocked : ∀ (v : Nat) vault, s.vaults[v]? = some vault → vault.locked = false →
    vault.secrets = s.file vault.caller
  writing : ∀ i c op reply v vault, s.tasks i = .persist c op reply v → s.vaults[v]? = some vault →
    vault.locked = true ∧ op.apply (s.file c) = (vault.secrets, reply)
  one : ∀ i j v, (s.tasks i).writes v → (s.tasks j).writes v → i = j
  held : ∀ (v : Nat) vault, s.vaults[v]? = some vault → vault.locked = true → ∃ i, (s.tasks i).writes v
  replayed : ∀ c, replay (files[c]?.getD ∅) (s.acksOf c) = some (s.file c)

theorem inv_initial (files : Table String Contents) (requests : Nat → Request) :
    Inv files (.initial files requests) where
  registered c v := by simp [World.initial]
  given _ _ _ h := nomatch h
  fresh _ _ _ _ h := nomatch h
  unlocked v vault h := by simp [World.initial] at h
  writing _ _ _ _ _ _ h := nomatch h
  one _ _ _ h := nomatch h
  held v vault h := by simp [World.initial] at h
  replayed _ := rfl

namespace Inv

theorem caller_eq (h : Inv files s) (hc : s.registry[c]? = some v) (hv : s.vaults[v]? = some vault) :
    vault.caller = c := by
  obtain ⟨vault', hv', hcaller⟩ := (h.registered c v).mp hc
  rw [hv] at hv'
  rwa [Option.some.inj hv']

/-- A task goes on without a write. -/
theorem goto (h : Inv files s) (hold : ∀ v, ¬ (s.tasks i).writes v) (hnew : ∀ v, ¬ task.writes v)
    (hgiven : ∀ c v, task.vault? = some (c, v) → s.registry[c]? = some v)
    (hfresh : ∀ c op secrets, task = .register c op secrets → s.registry[c]? = none →
      secrets = s.file c) : Inv files (s.goto i task) where
  registered := h.registered
  given j c v hj := by
    simp only [World.goto, Function.update_apply] at hj
    split_ifs at hj
    · exact hgiven c v hj
    · exact h.given j c v hj
  fresh j c op secrets hj hnone := by
    simp only [World.goto, Function.update_apply] at hj
    split_ifs at hj
    · exact hfresh c op secrets hj hnone
    · exact h.fresh j c op secrets hj hnone
  unlocked := h.unlocked
  writing j c op reply v vault hj hv := by
    simp only [World.goto, Function.update_apply] at hj
    split_ifs at hj
    · subst hj
      exact (hnew v rfl).elim
    · exact h.writing j c op reply v vault hj hv
  one j k v hj hk := by
    simp only [World.goto, Function.update_apply] at hj hk
    split_ifs at hj hk
    · exact (hnew v hj).elim
    · exact (hnew v hj).elim
    · exact (hnew v hk).elim
    · exact h.one j k v hj hk
  held v vault hv hlocked := by
    obtain ⟨j, hj⟩ := h.held v vault hv hlocked
    have hji : j ≠ i := by
      rintro rfl
      exact hold v hj
    refine ⟨j, ?_⟩
    simp only [World.goto, Function.update_of_ne hji]
    exact hj
  replayed := h.replayed

theorem acksOf_append (s : World) (ack : Ack) (c : String) :
    World.acksOf { s with acks := s.acks ++ [ack] } c
      = s.acksOf c ++ if ack.caller = c then [ack] else [] := by
  unfold World.acksOf
  rw [List.filter_append]
  split_ifs with hc <;> simp [hc]

/-- A request with the right answer is acknowledged. -/
theorem replay_acksOf (h : Inv files s) (hreply : (op.apply (s.file c)).2 = reply)
    (hsecrets : (op.apply (s.file c)).1 = secrets) (c' : String) :
    replay (files[c']?.getD ∅) (World.acksOf { s with acks := s.acks ++ [⟨i, c, op, reply⟩] } c')
      = some (if c' = c then secrets else s.file c') := by
  rw [acksOf_append]
  split_ifs with hc hc' hc'
  · subst hc'
    rw [replay_append (h.replayed c') hreply, hsecrets]
  · exact absurd hc.symm hc'
  · exact absurd hc'.symm hc
  · rw [List.append_nil]
    exact h.replayed c'

/-- A request that changes nothing is answered. -/
theorem acknowledge (h : Inv files s) (hold : ∀ v, ¬ (s.tasks i).writes v)
    (happly : op.apply (s.file c) = (s.file c, reply)) :
    Inv files (s.acknowledge i c op reply) := by
  have hgoto : Inv files (s.goto i (.answered (.ok reply))) :=
    h.goto hold (fun _ h => h) nofun nofun
  have happly : op.apply ((s.goto i (.answered (.ok reply))).file c) = (s.file c, reply) := happly
  refine { hgoto with replayed := fun c' => ?_ }
  have hreplay := hgoto.replay_acksOf (i := i) (c := c) (congrArg Prod.snd happly) (congrArg Prod.fst happly) c'
  refine hreplay.trans (congrArg some ?_)
  split_ifs with hc
  · rw [hc]
    rfl
  · rfl

/-! ## Vaults that change -/

theorem getElem?_set (hv : s.vaults[v]? = some vault) (vault' : Vault) (w : Nat) :
    (s.vaults.set v vault')[w]? = if w = v then some vault' else s.vaults[w]? := by
  have hlt : v < s.vaults.length := (List.getElem?_eq_some_iff.mp hv).1
  rw [List.getElem?_set]
  split_ifs with h₁ h₂ h₂
  · rfl
  · exact absurd h₁.symm h₂
  · exact absurd h₂.symm h₁
  · rfl

/-- A vault that changes stays with its caller. -/
theorem registered_set (h : Inv files s) (hv : s.vaults[v]? = some vault) {vault' : Vault}
    (hcaller : vault'.caller = vault.caller) (c : String) (w : Nat) :
    s.registry[c]? = some w ↔ ∃ u, (s.vaults.set v vault')[w]? = some u ∧ u.caller = c := by
  rw [h.registered, getElem?_set hv]
  split_ifs with hw
  · rw [hw, hv]
    simp only [Option.some.injEq, exists_eq_left', hcaller]
  · rfl

/-- No other vault has the same caller. -/
theorem caller_ne (h : Inv files s) (hc : s.registry[c]? = some v) (hw : s.vaults[w]? = some vault)
    (hne : w ≠ v) : vault.caller ≠ c := by
  intro hcaller
  have hc' := (h.registered c w).mpr ⟨vault, hw, hcaller⟩
  rw [hc] at hc'
  exact hne (Option.some.inj hc').symm

/-- The lock of a vault is taken, and kept for a write. -/
theorem startWrite (h : Inv files s) (hold : ∀ v, ¬ (s.tasks i).writes v) (hc : s.registry[c]? = some v)
    (hv : s.vaults[v]? = some vault) (hlocked : vault.locked = false)
    (happly : op.apply (s.file c) = (secrets, reply)) :
    Inv files ((s.setVault v { vault with secrets, locked := true }).goto i
      (.persist c op reply v)) where
  registered := h.registered_set hv rfl
  given j c' w hj := by
    simp only [World.goto, Function.update_apply] at hj
    split_ifs at hj
    · obtain ⟨rfl, rfl⟩ := Prod.mk.inj (Option.some.inj hj)
      exact hc
    · exact h.given j c' w hj
  fresh j c' op' secrets' hj hnone := by
    simp only [World.goto, Function.update_apply] at hj
    split_ifs at hj
    exact h.fresh j c' op' secrets' hj hnone
  unlocked w u hu hunlocked := by
    have hu' : (s.vaults.set v { vault with secrets, locked := true })[w]? = some u := hu
    rw [getElem?_set hv] at hu'
    split_ifs at hu'
    · obtain rfl := Option.some.inj hu'
      cases hunlocked
    · exact h.unlocked w u hu' hunlocked
  writing j c' op' reply' w u hj hu := by
    have hu' : (s.vaults.set v { vault with secrets, locked := true })[w]? = some u := hu
    rw [getElem?_set hv] at hu'
    simp only [World.goto, Function.update_apply] at hj
    split_ifs at hj with hji
    · cases hj
      rw [if_pos rfl] at hu'
      obtain rfl := Option.some.inj hu'
      exact ⟨rfl, happly⟩
    · have hw : w ≠ v := by
        rintro rfl
        have hheld := (h.writing j c' op' reply' w vault hj hv).1
        rw [hlocked] at hheld
        cases hheld
      rw [if_neg hw] at hu'
      exact h.writing j c' op' reply' w u hj hu'
  one j k w hj hk := by
    have hfree : ∀ j, ¬ (s.tasks j).writes v := by
      intro j hj
      cases htask : s.tasks j with
      | persist c' op' reply' w' =>
        rw [htask] at hj
        obtain rfl : w' = v := hj
        have hheld := (h.writing j c' op' reply' w' vault htask hv).1
        rw [hlocked] at hheld
        cases hheld
      | received | load | register | lock | answered => rw [htask] at hj; exact hj
    simp only [World.goto, Function.update_apply] at hj hk
    split_ifs at hj hk with hji hki hki
    · rw [hji, hki]
    · obtain rfl : v = w := hj
      exact (hfree k hk).elim
    · obtain rfl : v = w := hk
      exact (hfree j hj).elim
    · exact h.one j k w hj hk
  held w u hu hheld := by
    have hu' : (s.vaults.set v { vault with secrets, locked := true })[w]? = some u := hu
    rw [getElem?_set hv] at hu'
    split_ifs at hu' with hw
    · refine ⟨i, ?_⟩
      simp only [World.goto, Function.update_self]
      exact hw.symm
    · obtain ⟨j, hj⟩ := h.held w u hu' hheld
      have hji : j ≠ i := by
        rintro rfl
        exact hold w hj
      refine ⟨j, ?_⟩
      simp only [World.goto, Function.update_of_ne hji]
      exact hj
  replayed := h.replayed

/-- The file is written and the lock of its vault released. -/
theorem finishWrite (h : Inv files s) (ht : s.tasks i = .persist c op reply v)
    (hv : s.vaults[v]? = some vault) : Inv files (s.persist i c op reply v vault none) := by
  have hc : s.registry[c]? = some v := h.given i c v (by rw [ht]; rfl)
  have hcaller : vault.caller = c := h.caller_eq hc hv
  obtain ⟨-, happly⟩ := h.writing i c op reply v vault ht hv
  have hwrites : (s.tasks i).writes v := by rw [ht]; rfl
  have hfile (c' : String) : (s.persist i c op reply v vault none).file c'
      = if c' = c then vault.secrets else s.file c' := by
    change (s.files.insert c vault.secrets)[c']?.getD ∅ = _
    rw [Table.getElem?_insert_ite]
    split_ifs with h₁ h₂ h₂
    · rfl
    · exact absurd h₁.symm h₂
    · exact absurd h₂.symm h₁
    · rfl
  have hvault (w : Nat) : (s.persist i c op reply v vault none).vaults[w]?
      = if w = v then some { vault with locked := false } else s.vaults[w]? := getElem?_set hv _ w
  have htask (j : Nat) : (s.persist i c op reply v vault none).tasks j
      = if j = i then .answered (.ok reply) else s.tasks j := Function.update_apply ..
  exact {
    registered := h.registered_set hv rfl
    given := fun j c' w hj => by
      rw [htask] at hj
      split_ifs at hj
      · cases hj
      · exact h.given j c' w hj
    fresh := fun j c' op' secrets' hj hnone => by
      rw [htask] at hj
      split_ifs at hj
      have hne : c' ≠ c := by
        rintro rfl
        have hnone : s.registry[c']? = none := hnone
        rw [hc] at hnone
        cases hnone
      rw [hfile, if_neg hne]
      exact h.fresh j c' op' secrets' hj hnone
    unlocked := fun w u hu hunlocked => by
      rw [hvault] at hu
      split_ifs at hu with hw
      · obtain rfl := Option.some.inj hu
        rw [hfile, if_pos hcaller]
      · rw [hfile, if_neg (h.caller_ne hc hu hw)]
        exact h.unlocked w u hu hunlocked
    writing := fun j c' op' reply' w u hj hu => by
      rw [htask] at hj
      split_ifs at hj with hji
      have hw : w ≠ v := by
        rintro rfl
        exact hji (h.one j i w (by rw [hj]; rfl) hwrites)
      rw [hvault, if_neg hw] at hu
      have hc' : u.caller = c' := h.caller_eq (h.given j c' w (by rw [hj]; rfl)) hu
      rw [hfile, if_neg (hc' ▸ h.caller_ne hc hu hw)]
      exact h.writing j c' op' reply' w u hj hu
    one := fun j k w hj hk => by
      rw [htask] at hj hk
      split_ifs at hj hk
      · exact hj.elim
      · exact hj.elim
      · exact hk.elim
      · exact h.one j k w hj hk
    held := fun w u hu hheld => by
      rw [hvault] at hu
      split_ifs at hu with hw
      · obtain rfl := Option.some.inj hu
        cases hheld
      · obtain ⟨j, hj⟩ := h.held w u hu hheld
        have hji : j ≠ i := by
          rintro rfl
          rw [ht] at hj
          exact hw hj.symm
        exact ⟨j, by rwa [htask, if_neg hji]⟩
    replayed := fun c' => by
      rw [hfile]
      exact h.replay_acksOf (congrArg Prod.snd happly) (congrArg Prod.fst happly) c' }

/-- A caller without a vault gets one, with what the task has read of its file. -/
theorem register (h : Inv files s) (ht : s.tasks i = .register c op secrets)
    (hnone : s.registry[c]? = none) : Inv files (s.register i c op secrets) := by
  have hsecrets : secrets = s.file c := h.fresh i c op secrets ht hnone
  have hvault (w : Nat) : (s.register i c op secrets).vaults[w]?
      = if w = s.vaults.length then some { caller := c, secrets } else s.vaults[w]? := by
    change (s.vaults ++ [{ caller := c, secrets }])[w]? = _
    rcases Nat.lt_trichotomy w s.vaults.length with hw | rfl | hw
    · rw [List.getElem?_append_left hw, if_neg (Nat.ne_of_lt hw)]
    · rw [List.getElem?_concat_length, if_pos rfl]
    · rw [if_neg (Nat.ne_of_gt hw), List.getElem?_eq_none (Nat.le_of_lt hw),
        List.getElem?_eq_none]
      rw [List.length_append, List.length_singleton]
      exact hw
  have hregistry (c' : String) : (s.register i c op secrets).registry[c']?
      = if c = c' then some s.vaults.length else s.registry[c']? := Table.getElem?_insert_ite ..
  have htask (j : Nat) : (s.register i c op secrets).tasks j
      = if j = i then .lock c op s.vaults.length else s.tasks j := Function.update_apply ..
  have hlength {w : Nat} {vault : Vault} (hw : s.vaults[w]? = some vault) : w ≠ s.vaults.length :=
    Nat.ne_of_lt (List.getElem?_eq_some_iff.mp hw).1
  -- a vault without an entry in the registry would be of a caller that has one
  have hold {c' : String} {w : Nat} (hw : s.registry[c']? = some w) : c ≠ c' := by
    rintro rfl
    rw [hnone] at hw
    cases hw
  exact {
    registered := fun c' w => by
      rw [hregistry, hvault]
      split_ifs with hc hw hw
      · simp [hw, hc]
      · refine iff_of_false (fun hwv => hw (Option.some.inj hwv).symm) ?_
        intro hu
        have hu := (h.registered c' w).mpr hu
        exact hold hu hc
      · refine iff_of_false ?_ (fun ⟨u, hu, hcaller⟩ => ?_)
        · intro hw'
          obtain ⟨u, hu, -⟩ := (h.registered c' w).mp hw'
          exact hlength hu hw
        · obtain rfl := Option.some.inj hu
          exact hc hcaller
      · exact h.registered c' w
    given := fun j c' w hj => by
      rw [htask] at hj
      rw [hregistry]
      split_ifs at hj
      · obtain ⟨rfl, rfl⟩ := Prod.mk.inj (Option.some.inj hj)
        exact if_pos rfl
      · have hw := h.given j c' w hj
        rwa [if_neg (hold hw)]
    fresh := fun j c' op' secrets' hj hnone' => by
      rw [htask] at hj
      rw [hregistry] at hnone'
      split_ifs at hj hnone'
      exact h.fresh j c' op' secrets' hj hnone'
    unlocked := fun w u hu hunlocked => by
      rw [hvault] at hu
      split_ifs at hu
      · obtain rfl := Option.some.inj hu
        exact hsecrets
      · exact h.unlocked w u hu hunlocked
    writing := fun j c' op' reply' w u hj hu => by
      rw [htask] at hj
      split_ifs at hj
      rw [hvault] at hu
      split_ifs at hu with hw
      · obtain ⟨u', hu', -⟩ := (h.registered c' w).mp (h.given j c' w (by rw [hj]; rfl))
        exact absurd hw (hlength hu')
      · exact h.writing j c' op' reply' w u hj hu
    one := fun j k w hj hk => by
      rw [htask] at hj hk
      split_ifs at hj hk
      · exact hj.elim
      · exact hj.elim
      · exact hk.elim
      · exact h.one j k w hj hk
    held := fun w u hu hheld => by
      rw [hvault] at hu
      split_ifs at hu
      · obtain rfl := Option.some.inj hu
        cases hheld
      · obtain ⟨j, hj⟩ := h.held w u hu hheld
        have hji : j ≠ i := by
          rintro rfl
          rw [ht] at hj
          exact hj
        exact ⟨j, by rwa [htask, if_neg hji]⟩
    replayed := h.replayed }

end Inv

/-! ## Steps -/

theorem step_cases {l : Label} (h : s.step limits l = some s') : StepCases limits s l s' := by
  cases l with
  | begin i =>
    simp only [World.step] at h
    split at h
    · rename_i req ht
      obtain rfl := Option.some.inj h
      unfold World.begin
      split
      · rename_i e hp
        exact .refused ht hp
      · rename_i c op hp
        split
        · rename_i v hc
          exact .found ht hp hc
        · rename_i hc
          exact .missing ht hp hc
    · cases h
  | load i failure =>
    simp only [World.step] at h
    split at h
    · rename_i c op ht
      cases failure with
      | none =>
        obtain rfl := Option.some.inj h
        exact .loaded ht
      | some e =>
        obtain rfl := Option.some.inj h
        exact .unreadable ht
    · cases h
  | register i =>
    simp only [World.step] at h
    split at h
    · rename_i c op secrets ht
      obtain rfl := Option.some.inj h
      exact .registered ht
    · cases h
  | lock i =>
    simp only [World.step] at h
    split at h
    · rename_i c op v ht
      split at h
      · rename_i vault hv
        split_ifs at h with hlocked
        obtain rfl := Option.some.inj h
        exact .locked ht hv (Bool.eq_false_iff.mpr hlocked)
      · cases h
    · cases h
  | persist i failure =>
    simp only [World.step] at h
    split at h
    · rename_i c op reply v ht
      obtain ⟨vault, hv, rfl⟩ := Option.map_eq_some_iff.mp h
      exact .persisted ht hv
    · cases h

theorem Inv.lockVault (h : Inv files s) (ht : s.tasks i = .lock c op v) (hv : s.vaults[v]? = some vault)
    (hlocked : vault.locked = false) : Inv files (s.lockVault i c op v vault) := by
  have hold : ∀ w, ¬ (s.tasks i).writes w := by
    rw [ht]
    exact fun _ h => h
  have hc : s.registry[c]? = some v := h.given i c v (by rw [ht]; rfl)
  have hsecrets : vault.secrets = s.file c := by
    rw [h.unlocked v vault hv hlocked, h.caller_eq hc hv]
  rw [World.lockVault, hsecrets]
  cases hp : op.persists (s.file c) with
  | true => exact h.startWrite hold hc hv hlocked rfl
  | false => exact h.acknowledge hold (Prod.ext (Op.apply_of_not_persists hp) rfl)

/-- A step that registers no second vault and writes without failure. -/
theorem Inv.step {l : Label} (h : Inv files s) (hs : s.step limits l = some s')
    (horderly : s.orderly l = true) : Inv files s' := by
  cases step_cases hs with
  | refused ht => exact h.goto (by rw [ht]; exact fun _ h => h) (fun _ h => h) nofun nofun
  | found ht _ hc =>
    refine h.goto (by rw [ht]; exact fun _ h => h) (fun _ h => h) (fun c' v hg => ?_) nofun
    obtain ⟨rfl, rfl⟩ := Prod.mk.inj (Option.some.inj hg)
    exact hc
  | missing ht => exact h.goto (by rw [ht]; exact fun _ h => h) (fun _ h => h) nofun nofun
  | loaded ht =>
    refine h.goto (by rw [ht]; exact fun _ h => h) (fun _ h => h) nofun fun c' op' secrets hr _ => ?_
    cases hr
    rfl
  | unreadable ht => exact h.goto (by rw [ht]; exact fun _ h => h) (fun _ h => h) nofun nofun
  | registered ht =>
    simp only [World.orderly, ht, Option.isNone_iff_eq_none] at horderly
    exact h.register ht horderly
  | locked ht hv hlocked => exact h.lockVault ht hv hlocked
  | persisted ht hv =>
    obtain rfl := Option.isNone_iff_eq_none.mp horderly
    exact h.finishWrite ht hv

/-! ## Requests and their answers -/

/-- What a request in progress asks for. -/
def Task.asked? : Task → Option (String × Op)
  | .load c op | .register c op _ | .lock c op _ | .persist c op _ _ => some (c, op)
  | .received _ | .answered _ => none

/-- The acknowledged requests are those that are answered without an error, each of them once. -/
structure Answers (limits : Limits) (requests : Nat → Request) (s : World) : Prop where
  received : ∀ i req, s.tasks i = .received req → req = requests i
  asked : ∀ i c op, (s.tasks i).asked? = some (c, op) → limits.prepare (requests i) = .ok (c, op)
  once : (s.acks.map Ack.task).Nodup
  acked : ∀ i reply, s.tasks i = .answered (.ok reply) → ∃ ack ∈ s.acks, ack.task = i ∧ ack.reply = reply
  answered : ∀ ack ∈ s.acks, s.tasks ack.task = .answered (.ok ack.reply) ∧
    limits.prepare (requests ack.task) = .ok (ack.caller, ack.op)

variable {requests : Nat → Request}

theorem answers_initial (files : Table String Contents) (requests : Nat → Request) :
    Answers limits requests (.initial files requests) where
  received i req h := by
    cases h
    rfl
  asked i c op h := nomatch h
  once := .nil
  acked i reply h := nomatch h
  answered ack h := nomatch h

namespace Answers

/-- A task that was not answered goes on. -/
theorem update (h : Answers limits requests s) (hold : ∀ result, s.tasks i ≠ .answered result)
    (htasks : s'.tasks = Function.update s.tasks i task) (hacks : s'.acks = s.acks)
    (hreceived : ∀ req, task ≠ .received req) (hanswered : ∀ reply, task ≠ .answered (.ok reply))
    (hasked : ∀ c op, task.asked? = some (c, op) → limits.prepare (requests i) = .ok (c, op)) :
    Answers limits requests s' where
  received j req hj := by
    rw [htasks, Function.update_apply] at hj
    split_ifs at hj
    · exact absurd hj (hreceived req)
    · exact h.received j req hj
  asked j c op hj := by
    rw [htasks, Function.update_apply] at hj
    split_ifs at hj with hji
    · rw [hji]
      exact hasked c op hj
    · exact h.asked j c op hj
  once := hacks ▸ h.once
  acked j reply hj := by
    rw [htasks, Function.update_apply] at hj
    rw [hacks]
    split_ifs at hj
    · exact absurd hj (hanswered reply)
    · exact h.acked j reply hj
  answered ack hack := by
    rw [hacks] at hack
    obtain ⟨htask, hprepare⟩ := h.answered ack hack
    have hne : ack.task ≠ i := by
      rintro rfl
      exact hold _ htask
    rw [htasks, Function.update_of_ne hne]
    exact ⟨htask, hprepare⟩

/-- A task is acknowledged. -/
theorem acknowledge (h : Answers limits requests s) (ht : (s.tasks i).asked? = some (c, op))
    (htasks : s'.tasks = Function.update s.tasks i (.answered (.ok reply)))
    (hacks : s'.acks = s.acks ++ [⟨i, c, op, reply⟩]) : Answers limits requests s' := by
  have hnew : ∀ ack ∈ s.acks, ack.task ≠ i := by
    rintro ack hack rfl
    rw [(h.answered ack hack).1] at ht
    cases ht
  exact {
    received := fun j req hj => by
      rw [htasks, Function.update_apply] at hj
      split_ifs at hj
      exact h.received j req hj
    asked := fun j c op hj => by
      rw [htasks, Function.update_apply] at hj
      split_ifs at hj
      · cases hj
      · exact h.asked j c op hj
    once := by
      rw [hacks, List.map_append, List.map_singleton]
      refine List.nodup_append.mpr ⟨h.once, List.pairwise_singleton _ _, ?_⟩
      rintro a ha b hb
      obtain ⟨ack, hack, rfl⟩ := List.mem_map.mp ha
      rw [List.mem_singleton.mp hb]
      exact hnew ack hack
    acked := fun j reply' hj => by
      rw [htasks, Function.update_apply] at hj
      rw [hacks]
      split_ifs at hj with hji
      · cases hj
        exact ⟨_, List.mem_concat_self, hji.symm, rfl⟩
      · obtain ⟨ack, hack, htask⟩ := h.acked j reply' hj
        exact ⟨ack, List.mem_append_left _ hack, htask⟩
    answered := fun ack hack => by
      rw [hacks] at hack
      rcases List.mem_append.mp hack with hack | hack
      · rw [htasks, Function.update_of_ne (hnew ack hack)]
        exact h.answered ack hack
      · obtain rfl := List.mem_singleton.mp hack
        rw [htasks, Function.update_self]
        exact ⟨rfl, h.asked i c op ht⟩ }

theorem step {l : Label} (h : Answers limits requests s) (hs : s.step limits l = some s') :
    Answers limits requests s' := by
  cases step_cases hs with
  | refused ht => exact h.update (by simp [ht]) rfl rfl nofun nofun nofun
  | found ht hp | missing ht hp =>
    refine h.update (by simp [ht]) rfl rfl nofun nofun fun c' op' hg => ?_
    obtain ⟨rfl, rfl⟩ := Prod.mk.inj (Option.some.inj hg)
    rwa [← h.received _ _ ht]
  | loaded ht =>
    refine h.update (by simp [ht]) rfl rfl nofun nofun fun c' op' hg => ?_
    exact h.asked _ c' op' (by rw [ht]; exact hg)
  | unreadable ht => exact h.update (by simp [ht]) rfl rfl nofun nofun nofun
  | registered ht =>
    refine h.update (by simp [ht]) rfl rfl nofun nofun fun c' op' hg => ?_
    exact h.asked _ c' op' (by rw [ht]; exact hg)
  | @locked i c op v vault ht hv =>
    rw [World.lockVault]
    cases hp : op.persists vault.secrets with
    | true =>
      refine h.update (by simp [ht]) rfl rfl nofun nofun fun c' op' hg => ?_
      exact h.asked _ c' op' (by rw [ht]; exact hg)
    | false => exact h.acknowledge (by rw [ht]; rfl) rfl rfl
  | @persisted i c op reply v vault failure ht hv =>
    cases failure with
    | none => exact h.acknowledge (by rw [ht]; rfl) rfl rfl
    | some e => exact h.update (by simp [ht]) rfl rfl nofun nofun nofun

end Answers

/-! ## Errors -/

/-- The task has a vault, or has been acknowledged. -/
def Task.touches : Task → Bool
  | .lock .. | .persist .. | .answered (.ok _) => true
  | .received _ | .load .. | .register .. | .answered (.error _) => false

theorem touches_update (h : (s.tasks i).touches = true → task.touches = true) (j : Nat)
    (hj : (s.tasks j).touches = true) : (Function.update s.tasks i task j).touches = true := by
  rw [Function.update_apply]
  split_ifs with hji
  · exact h (hji ▸ hj)
  · exact hj

/-- A task that has once touched a vault is never answered with an error, and until then it has changed
    nothing. -/
theorem step_touches {l : Label} (h : s.step limits l = some s') (horderly : s.orderly l = true) :
    (∀ j, (s.tasks j).touches = true → (s'.tasks j).touches = true) ∧
      ((s'.tasks l.task).touches = true ∨ s'.files = s.files ∧ s'.vaults = s.vaults) := by
  cases step_cases h with
  | refused ht | missing ht | loaded ht | unreadable ht =>
    refine ⟨touches_update fun htouches => ?_, .inr ⟨rfl, rfl⟩⟩
    rw [ht] at htouches
    cases htouches
  | found ht => exact ⟨touches_update fun _ => rfl, .inr ⟨rfl, rfl⟩⟩
  | @registered i => exact ⟨touches_update fun _ => rfl, .inl (by simp [World.register, Label.task, Task.touches])⟩
  | @locked i c op v vault =>
    rw [World.lockVault]
    cases op.persists vault.secrets with
    | true => exact ⟨touches_update fun _ => rfl, .inl (by simp [World.goto, Label.task, Task.touches])⟩
    | false =>
      exact ⟨touches_update fun _ => rfl, .inl (by simp [World.acknowledge, Label.task, Task.touches])⟩
  | persisted =>
    obtain rfl := Option.isNone_iff_eq_none.mp horderly
    refine ⟨touches_update fun _ => rfl, .inl ?_⟩
    simp [World.persist, World.acknowledge, Label.task, Task.touches]

/-- The orderly runs of the plugin. -/
abbrev Orderly (limits : Limits) (files : Table String Contents) (requests : Nat → Request) :
    List Label → World → Prop :=
  Run (Where (fun s l => s.orderly l = true) fun s l s' => s.step limits l = some s')
    (.initial files requests)

variable {trace : List Label}

/-- The steps of a task that has touched no vault change neither files nor vaults. -/
theorem untouched_steps (h : Orderly limits files requests trace s)
    (hi : (s.tasks i).touches = false) {later earlier : List Label} {l : Label} {s₁ s₂ : World}
    (htrace : trace = later ++ l :: earlier) (hl : l.task = i)
    (hearlier : Orderly limits files requests earlier s₁) (hstep : s₁.step limits l = some s₂) :
    s₂.files = s₁.files ∧ s₂.vaults = s₁.vaults := by
  subst htrace
  induction later generalizing s with
  | nil =>
    cases h with
    | @step _ s₀ _ _ hrun hlast =>
      have hdet : ∀ (s : World) (l : Label) (a b : World),
          Where (fun s l => s.orderly l = true) (fun s l s' => s.step limits l = some s') s l a →
            Where (fun s l => s.orderly l = true) (fun s l s' => s.step limits l = some s') s l b →
              a = b := fun s l a b ha hb => Option.some.inj (ha.1.symm.trans hb.1)
      obtain rfl := hrun.unique hdet hearlier
      obtain rfl := Option.some.inj (hlast.1.symm.trans hstep)
      rcases (step_touches hlast.1 hlast.2).2 with htouches | hsame
      · rw [hl, hi] at htouches
        cases htouches
      · exact hsame
  | cons l' later ih =>
    cases h with
    | @step _ s₀ _ _ hrun hlast =>
      refine ih ?_ hrun
      rw [Bool.eq_false_iff]
      intro htouches
      rw [(step_touches hlast.1 hlast.2).1 i htouches] at hi
      cases hi

/-! ## Runs -/

/-- As long as a vault is registered only where its caller has none, and no write of a file fails, no
    caller has two vaults and each task is given the one of its caller, a vault in memory is its file
    except during a write, a task that is answered with an error has changed neither of them, and the file
    is what the acknowledged requests make of it in the order of their answers. -/
theorem acknowledged_changes_kept (limits : Limits) (files : Table String Contents)
    (requests : Nat → Request) (h : Orderly limits files requests trace s) :
    (∀ (v w : Nat) a b, s.vaults[v]? = some a → s.vaults[w]? = some b → a.caller = b.caller → v = w) ∧
      (∀ i c v, (s.tasks i).vault? = some (c, v) → ∃ vault, s.vaults[v]? = some vault ∧ vault.caller = c) ∧
      (∀ (v : Nat) vault, s.vaults[v]? = some vault → (∀ i, ¬ (s.tasks i).writes v) →
        vault.secrets = s.file vault.caller) ∧
      (∀ i e, s.tasks i = .answered (.error e) → ∀ later earlier l s₁ s₂,
        trace = later ++ l :: earlier → l.task = i → Orderly limits files requests earlier s₁ →
          s₁.step limits l = some s₂ → s₂.files = s₁.files ∧ s₂.vaults = s₁.vaults) ∧
      ((s.acks.map Ack.task).Nodup ∧
        (∀ i reply, s.tasks i = .answered (.ok reply) → ∃ ack ∈ s.acks, ack.task = i ∧ ack.reply = reply) ∧
        ∀ ack ∈ s.acks, limits.prepare (requests ack.task) = .ok (ack.caller, ack.op)) ∧
      ∀ c, replay (files[c]?.getD ∅) (s.acksOf c) = some (s.file c) := by
  have hinv : Inv files s := h.invariant_state (inv_initial files requests)
    fun s l s' hI hs => hI.step hs.1 hs.2
  have hanswers : Answers limits requests s := h.invariant_state (answers_initial files requests)
    fun s l s' hI hs => hI.step hs.1
  refine ⟨?_, ?_, ?_, ?_, ⟨hanswers.once, hanswers.acked, ?_⟩, hinv.replayed⟩
  · intro v w a b ha hb hcaller
    have hv := (hinv.registered _ v).mpr ⟨a, ha, rfl⟩
    rw [hcaller, (hinv.registered _ w).mpr ⟨b, hb, rfl⟩] at hv
    exact (Option.some.inj hv).symm
  · intro i c v hi
    exact (hinv.registered c v).mp (hinv.given i c v hi)
  · intro v vault hv hidle
    refine hinv.unlocked v vault hv (Bool.eq_false_iff.mpr fun hlocked => ?_)
    obtain ⟨i, hi⟩ := hinv.held v vault hv hlocked
    exact hidle i hi
  · intro i e hi later earlier l s₁ s₂ htrace hl hearlier hstep
    exact untouched_steps h (by rw [hi]; rfl) htrace hl hearlier hstep
  · exact fun ack hack => (hanswers.answered ack hack).2

/-- Two requests of one caller that set two secrets. -/
def sets (i : Nat) : Request where
  caller_plugin_id := "agent"
  action := "secret_set"
  params_json :=
    (Json.obj [("name", .str (if i = 0 then "token" else "key")), ("value", .str "hidden")]).toVec

/-- The second request finds the vault that the first one has registered. -/
theorem acknowledged_changes_kept_sample :
    ∃ s : World, replay ∅ (s.acksOf "agent") = some (s.file "agent") ∧ s.acks.length = 2 := by
  have hsome : ((runWhere (fun s l => World.orderly s l = true) (World.step { serde := .compact })
      (.initial ∅ sets) [.begin 0, .load 0 none, .register 0, .lock 0, .begin 1, .persist 0 none,
        .lock 1, .persist 1 none]).any fun s => s.acks.length = 2) = true := by
    decide +kernel
  obtain ⟨s, hs, hlength⟩ := (Option.any_eq_true _ _).mp hsome
  obtain ⟨-, -, -, -, -, hreplay⟩ :=
    acknowledged_changes_kept { serde := .compact } ∅ sets (run_of_runWhere .start hs)
  exact ⟨s, hreplay "agent", of_decide_eq_true hlength⟩

/-- Two first requests of a caller both load its vault. The write of the one that registers its vault
    last takes away what the other one has stored. -/
theorem two_loaders_lose_a_secret :
    ¬ ∀ (limits : Limits) (files : Table String Contents) (requests : Nat → Request)
      (trace : List Label) (s : World),
      Run (fun s l s' => s.step limits l = some s') (.initial files requests) trace s →
        ∀ c, ∃ acks, acks.Perm (s.acksOf c) ∧
          replay (files[c]?.getD ∅) acks = some (s.file c) := by
  intro hall
  have hsome : ((runWhere (fun _ _ => True) (World.step { serde := .compact }) (.initial ∅ sets)
      [.begin 0, .begin 1, .load 0 none, .load 1 none, .register 0, .lock 0, .persist 0 none,
        .register 1, .lock 1, .persist 1 none]).any fun s =>
          (s.file "agent")["token"]?.isNone ∧ ((s.acksOf "agent").map Ack.task) = [0, 1] ∧
            ∀ a ∈ s.acksOf "agent", ∀ b ∈ s.acksOf "agent", a.task ≠ b.task →
              ((replay ∅ [a, b]).all fun secrets => secrets["token"]?.isSome)) = true := by
    decide +kernel
  obtain ⟨s, hs, hlost⟩ := (Option.any_eq_true _ _).mp hsome
  obtain ⟨hnone, htasks, hkept⟩ := of_decide_eq_true hlost
  have hrun := (run_of_runWhere .start hs).mono fun _ _ _ hl => hl.1
  obtain ⟨acks, hperm, hreplay⟩ := hall { serde := .compact } ∅ sets _ s hrun "agent"
  have hreplay : replay ∅ acks = some (s.file "agent") := hreplay
  have htasks : (acks.map Ack.task).Perm [0, 1] := htasks ▸ hperm.map Ack.task
  match acks, hperm, hreplay, htasks with
  | [a, b], hperm, hreplay, htasks =>
    have hnodup : [a.task, b.task].Nodup := htasks.nodup_iff.mpr (by decide)
    have hne : a.task ≠ b.task := by
      intro heq
      simp [heq] at hnodup
    have htoken := hkept a (hperm.subset (by simp)) b (hperm.subset (by simp)) hne
    rw [hreplay, Option.all_some, Option.isSome_iff_ne_none] at htoken
    exact htoken (Option.isNone_iff_eq_none.mp hnone)
  | [], _, _, htasks | [_], _, _, htasks | _ :: _ :: _ :: _, _, _, htasks =>
    have hlength := htasks.length_eq
    simp at hlength

end Secrets
