import Mathlib.Data.List.Infix
import VynkorPlugins.Ai.Db

/-!
# One default

When each table keeps at most one default over interleaved calls, and a setter of an unknown id changes
nothing.
-/

namespace Ai

/-! ## Tables -/

section

variable {α : Type} [Row α] {t started : Table α} {r row : α} {id : String}

def Table.defaults (t : Table α) : List α := t.rows.filter Row.is_default

/-- At most one row is the default. -/
def Table.OneDefault (t : Table α) : Prop := t.defaults.length ≤ 1

instance (t : Table α) : Decidable t.OneDefault := by
  unfold Table.OneDefault; infer_instance

theorem empty_oneDefault : (Table.empty : Table α).OneDefault :=
  Nat.zero_le 1

/-- Where no row has the id when the two statements of a setter are executed, neither changes the default. -/
def Table.Undisturbed (started t : Table α) (id : String) : Prop :=
  id ∉ started.ids → id ∉ t.ids →
    (Statement.clear.execute started).defaults = started.defaults ∧
      ((Statement.flag id).execute t).defaults = t.defaults

/-- A row is made the default only while no other one is, and a setter finds the id at one of its statements,
    or there was no default when it started. -/
def Statement.Careful (started t : Table α) : Statement α → Prop
  | .upsert row => Row.is_default row = true → ∀ r ∈ t.defaults, Row.id r = Row.id row
  | .delete _ => True
  | .clear => True
  | .flag id =>
    (id ∈ t.ids → ∀ r ∈ t.defaults, Row.id r = id) ∧ (id ∉ started.ids → id ∉ t.ids → started.defaults = [])

theorem mem_defaults : r ∈ t.defaults ↔ r ∈ t.rows ∧ Row.is_default r = true :=
  List.mem_filter

/-- Rows are told apart by their ids. -/
theorem row_eq (hr : r ∈ t.rows) (hrow : row ∈ t.rows) (h : Row.id r = Row.id row) : r = row :=
  List.inj_on_of_nodup_map t.primary_key hr hrow h

/-- The row with the id is a default. -/
def Table.IsDefault (t : Table α) (id : String) : Prop := ∃ r ∈ t.defaults, Row.id r = id

theorem oneDefault_iff : t.OneDefault ↔ ∀ x y, t.IsDefault x → t.IsDefault y → x = y := by
  have hnodup : t.defaults.Nodup := (List.Nodup.of_map _ t.primary_key).filter _
  have hmem : ∀ r ∈ t.defaults, r ∈ t.rows := fun r hr => (mem_defaults.mp hr).1
  unfold Table.OneDefault Table.IsDefault
  revert hnodup hmem
  cases t.defaults with
  | nil => simp
  | cons a rest =>
    cases rest with
    | nil => simp
    | cons b rest =>
      intro hnodup hmem
      constructor
      · intro hlen
        simp only [List.length_cons] at hlen
        omega
      · intro h
        have hid : Row.id a = Row.id b := h _ _ ⟨a, by simp, rfl⟩ ⟨b, by simp, rfl⟩
        have hab : a = b := row_eq (hmem a (by simp)) (hmem b (by simp)) hid
        rw [hab] at hnodup
        simp at hnodup

/-! ## What a statement makes of the defaults -/

theorem default_upsert (t : Table α) (row : α) (x : String) :
    (t.upsert row).IsDefault x ↔ (t.IsDefault x ∧ x ≠ Row.id row) ∨ (x = Row.id row ∧ Row.is_default row = true) := by
  unfold Table.upsert
  split_ifs with hid
  · obtain ⟨old, hold, holdid⟩ := List.mem_map.mp hid
    simp only [Table.IsDefault, mem_defaults, Table.update, List.mem_map]
    constructor
    · rintro ⟨r, ⟨⟨r₀, hr₀, rfl⟩, hdefault⟩, rfl⟩
      split_ifs at hdefault ⊢ with heq
      · exact .inr ⟨rfl, hdefault⟩
      · exact .inl ⟨⟨r₀, ⟨hr₀, hdefault⟩, rfl⟩, heq⟩
    · rintro (⟨⟨r, ⟨hr, hdefault⟩, rfl⟩, hne⟩ | ⟨rfl, hdefault⟩)
      · exact ⟨r, ⟨⟨r, hr, if_neg hne⟩, hdefault⟩, rfl⟩
      · exact ⟨row, ⟨⟨old, hold, if_pos holdid⟩, hdefault⟩, rfl⟩
  · have hother : ∀ r ∈ t.rows, Row.id r ≠ Row.id row := by
      intro r hr heq
      exact hid (heq ▸ List.mem_map_of_mem hr)
    simp only [Table.IsDefault, mem_defaults, List.mem_append, List.mem_singleton]
    constructor
    · rintro ⟨r, ⟨hr | rfl, hdefault⟩, rfl⟩
      · exact .inl ⟨⟨r, ⟨hr, hdefault⟩, rfl⟩, hother r hr⟩
      · exact .inr ⟨rfl, hdefault⟩
    · rintro (⟨⟨r, ⟨hr, hdefault⟩, rfl⟩, -⟩ | ⟨rfl, hdefault⟩)
      · exact ⟨r, ⟨.inl hr, hdefault⟩, rfl⟩
      · exact ⟨row, ⟨.inr rfl, hdefault⟩, rfl⟩

theorem default_delete (t : Table α) (id x : String) :
    (t.delete id).IsDefault x ↔ t.IsDefault x ∧ x ≠ id := by
  simp only [Table.IsDefault, mem_defaults, Table.delete, List.mem_filter, decide_eq_true_eq]
  constructor
  · rintro ⟨r, ⟨⟨hr, hne⟩, hdefault⟩, rfl⟩
    exact ⟨⟨r, ⟨hr, hdefault⟩, rfl⟩, hne⟩
  · rintro ⟨⟨r, ⟨hr, hdefault⟩, rfl⟩, hne⟩
    exact ⟨r, ⟨⟨hr, hne⟩, hdefault⟩, rfl⟩

theorem defaults_clear (t : Table α) : (Statement.clear.execute t).defaults = [] := by
  simp [Statement.execute, Table.update, Table.defaults]

theorem default_flag (t : Table α) (id x : String) :
    ((Statement.flag id).execute t).IsDefault x ↔ t.IsDefault x ∨ (x = id ∧ id ∈ t.ids) := by
  simp only [Table.IsDefault, mem_defaults, Statement.execute, Table.update, List.mem_map, Table.ids]
  constructor
  · rintro ⟨r, ⟨⟨r₀, hr₀, rfl⟩, hdefault⟩, rfl⟩
    split_ifs at hdefault ⊢ with heq
    · right
      rw [Row.id_flagged]
      exact ⟨heq, r₀, hr₀, heq⟩
    · exact .inl ⟨r₀, ⟨hr₀, hdefault⟩, rfl⟩
  · rintro (⟨r, ⟨hr, hdefault⟩, rfl⟩ | ⟨rfl, r, hr, rfl⟩)
    · by_cases heq : Row.id r = id
      · refine ⟨Row.flagged true r, ⟨⟨r, hr, if_pos heq⟩, ?_⟩, ?_⟩ <;> simp
      · exact ⟨r, ⟨⟨r, hr, if_neg heq⟩, hdefault⟩, rfl⟩
    · refine ⟨Row.flagged true r, ⟨⟨r, hr, if_pos rfl⟩, ?_⟩, ?_⟩ <;> simp

/-- A setter finds no row. -/
theorem flag_missing (h : id ∉ t.ids) : ((Statement.flag id).execute t).defaults = t.defaults := by
  have hother : ∀ r ∈ t.rows, Row.id r ≠ id := by
    intro r hr heq
    exact h (heq ▸ List.mem_map_of_mem hr)
  have hrows : ((Statement.flag id).execute t).rows = t.rows := by
    show t.rows.map _ = t.rows
    refine (List.map_congr_left fun r hr => ?_).trans (List.map_id _)
    exact if_neg (hother r hr)
  unfold Table.defaults
  rw [hrows]

/-- With one more row made the default, there is one default where the others are this row. -/
theorem one_more {P Q : String → Prop} {x : String} (hq : ∀ y, Q y ↔ (P y ∧ y ≠ x) ∨ y = x) :
    (∀ y z, Q y → Q z → y = z) ↔ ∀ y, P y → y = x := by
  constructor
  · intro h y hy
    by_contra hne
    exact hne (h y x ((hq y).mpr (.inl ⟨hy, hne⟩)) ((hq x).mpr (.inr rfl)))
  · intro h y z hy hz
    have hall : ∀ y, Q y → y = x := fun y hy => ((hq y).mp hy).elim (fun hp => h y hp.1) id
    rw [hall y hy, hall z hz]

theorem undisturbed_iff :
    Table.Undisturbed started t id ↔ (id ∉ started.ids → id ∉ t.ids → started.defaults = []) := by
  unfold Table.Undisturbed
  rw [defaults_clear]
  constructor
  · intro h hstarted ht
    exact (h hstarted ht).1.symm
  · intro h hstarted ht
    exact ⟨(h hstarted ht).symm, flag_missing ht⟩

theorem isDefault_all {x : String} : (∀ y, t.IsDefault y → y = x) ↔ ∀ r ∈ t.defaults, Row.id r = x := by
  constructor
  · intro h r hr
    exact h _ ⟨r, hr, rfl⟩
  · rintro h _ ⟨r, hr, rfl⟩
    exact h r hr

/-- A statement on a table with one default: there still is one, and a setter changes nothing for an unknown
    id, exactly where the statement is careful. -/
theorem careful_iff (started : Table α) (hone : t.OneDefault) (st : Statement α) :
    ((st.execute t).OneDefault ∧ ∀ id, st = .flag id → Table.Undisturbed started t id) ↔
      st.Careful started t := by
  rw [oneDefault_iff] at hone ⊢
  cases st with
  | upsert row =>
    have hnone : ∀ id, Statement.upsert row ≠ .flag id := fun id h => by cases h
    simp only [Statement.execute, Statement.Careful, hnone, false_implies, implies_true, and_true]
    by_cases hdefault : Row.is_default row = true
    · have hmore := one_more fun y => (default_upsert t row y).trans (by rw [hdefault, and_iff_left rfl])
      rw [hmore, isDefault_all]
      simp only [hdefault, true_implies]
    · refine iff_of_true ?_ fun h => (hdefault h).elim
      intro x y hx hy
      have hold : ∀ z, (t.upsert row).IsDefault z → t.IsDefault z := by
        intro z hz
        rcases (default_upsert t row z).mp hz with h | h
        · exact h.1
        · exact (hdefault h.2).elim
      exact hone x y (hold x hx) (hold y hy)
  | delete id =>
    refine iff_of_true ⟨?_, fun id h => by cases h⟩ trivial
    intro x y hx hy
    exact hone x y ((default_delete t id x).mp hx).1 ((default_delete t id y).mp hy).1
  | clear =>
    refine iff_of_true ⟨?_, fun id h => by cases h⟩ trivial
    rintro x y ⟨r, hr, -⟩
    rw [defaults_clear] at hr
    cases hr
  | flag id =>
    simp only [Statement.Careful, Statement.flag.injEq, forall_eq', undisturbed_iff]
    refine and_congr_left' ?_
    by_cases hid : id ∈ t.ids
    · have hflag : ∀ y, ((Statement.flag id).execute t).IsDefault y ↔ (t.IsDefault y ∧ y ≠ id) ∨ y = id := by
        intro y
        rw [default_flag, and_iff_left hid]
        tauto
      rw [one_more hflag, isDefault_all]
      simp only [hid, true_implies]
    · refine iff_of_true ?_ fun h => (hid h).elim
      intro x y hx hy
      have hold : ∀ z, ((Statement.flag id).execute t).IsDefault z → t.IsDefault z := by
        intro z hz
        exact ((default_flag t id z).mp hz).resolve_right fun h => hid h.2
      exact hone x y (hold x hx) (hold y hy)

end

/-! ## Interleaved calls -/

structure Db.OneDefault (db : Db) : Prop where
  models : db.models.OneDefault
  agents : db.agents.OneDefault

/-- After the step there is one default in each table. If the step completes a setter of an id that does not
    exist, it has left the default as it was. -/
structure Sys.Good (s : Sys) (act : Act) : Prop where
  one : (s.step act).db.OneDefault
  model : ∀ task st id, s.due act = some (task, st) → task.call = .set_model_default id → task.remaining = [st] →
    Table.Undisturbed task.started.models s.db.models id
  agent : ∀ task st id, s.due act = some (task, st) → task.call = .set_agent_default id → task.remaining = [st] →
    Table.Undisturbed task.started.agents s.db.agents id

def DbStatement.Careful (started db : Db) : DbStatement → Prop
  | .models st => st.Careful started.models db.models
  | .agents st => st.Careful started.agents db.agents

def Sys.Careful (s : Sys) (act : Act) : Prop :=
  ∀ task st, s.due act = some (task, st) → st.Careful task.started s.db

/-- What the tasks still execute is what is left of their calls. -/
structure Sys.Inv (s : Sys) : Prop where
  one : s.db.OneDefault
  tasks : ∀ task ∈ s.tasks, task.remaining <:+ task.call.statements

variable {s : Sys} {act : Act} {task : Task} {st : DbStatement}

theorem due_some (h : s.due act = some (task, st)) :
    ∃ i, act = .statement i ∧ s.tasks[i]? = some task ∧ task.remaining.head? = some st := by
  cases act with
  | call c => cases h
  | fail i => cases h
  | statement i =>
    unfold Sys.due at h
    dsimp only at h
    split at h
    · rename_i task' htask
      obtain ⟨st', hst, heq⟩ := Option.map_eq_some_iff.mp h
      cases heq
      exact ⟨i, rfl, htask, hst⟩
    · cases h

theorem step_due (h : s.due act = some (task, st)) : (s.step act).db = st.execute s.db := by
  obtain ⟨i, rfl, -, -⟩ := due_some h
  simp only [Sys.step, h]

theorem step_undue (h : s.due act = none) : (s.step act).db = s.db := by
  cases act with
  | call c => rfl
  | fail i => rfl
  | statement i => simp only [Sys.step, h]

theorem left_of_one {l : List DbStatement} {a : DbStatement} (h : l <:+ [a]) (hst : l.head? = some st) :
    l = [st] ∧ st = a := by
  rcases List.suffix_cons_iff.mp h with rfl | h
  · obtain rfl : a = st := Option.some.inj hst
    exact ⟨rfl, rfl⟩
  · rw [List.suffix_nil.mp h] at hst
    cases hst

theorem left_of_two {l : List DbStatement} {a b : DbStatement} (h : l <:+ [a, b]) (hst : l.head? = some st) :
    (l = [a, b] ∧ st = a) ∨ (l = [st] ∧ st = b) := by
  rcases List.suffix_cons_iff.mp h with rfl | h
  · exact .inl ⟨rfl, (Option.some.inj hst).symm⟩
  · exact .inr (left_of_one h hst)

/-- The last statement of a setter is the one that sets the flag. -/
theorem setter_iff (htask : task.remaining <:+ task.call.statements) (hst : task.remaining.head? = some st)
    (id : String) :
    (task.call = .set_model_default id ∧ task.remaining = [st] ↔ st = .models (.flag id)) ∧
      (task.call = .set_agent_default id ∧ task.remaining = [st] ↔ st = .agents (.flag id)) := by
  cases hcall : task.call with
  | upsert_model m =>
    rw [hcall] at htask
    obtain ⟨-, rfl⟩ := left_of_one htask hst
    simp
  | delete_model id' =>
    rw [hcall] at htask
    obtain ⟨-, rfl⟩ := left_of_one htask hst
    simp
  | upsert_agent a =>
    rw [hcall] at htask
    obtain ⟨-, rfl⟩ := left_of_one htask hst
    simp
  | delete_agent id' =>
    rw [hcall] at htask
    obtain ⟨-, rfl⟩ := left_of_one htask hst
    simp
  | set_model_default id' =>
    rw [hcall] at htask
    rcases left_of_two htask hst with ⟨hleft, rfl⟩ | ⟨hleft, rfl⟩ <;> simp [hleft]
  | set_agent_default id' =>
    rw [hcall] at htask
    rcases left_of_two htask hst with ⟨hleft, rfl⟩ | ⟨hleft, rfl⟩ <;> simp [hleft]

theorem good_undue (hs : s.Inv) (h : s.due act = none) : s.Good act where
  one := by
    rw [step_undue h]
    exact hs.one
  model task st id hdue := by
    rw [h] at hdue
    cases hdue
  agent task st id hdue := by
    rw [h] at hdue
    cases hdue

/-- One step: it does what is promised exactly where it is careful. -/
theorem good_iff (hs : s.Inv) : s.Good act ↔ s.Careful act := by
  cases hdue : s.due act with
  | none =>
    refine iff_of_true (good_undue hs hdue) ?_
    intro task st h
    rw [hdue] at h
    cases h
  | some due =>
    obtain ⟨task, st⟩ := due
    obtain ⟨i, -, htask, hst⟩ := due_some hdue
    have hsetter := setter_iff (hs.tasks task (List.mem_of_getElem? htask)) hst
    have hgood : s.Good act ↔ (st.execute s.db).OneDefault ∧
        (∀ id, st = .models (.flag id) → Table.Undisturbed task.started.models s.db.models id) ∧
        ∀ id, st = .agents (.flag id) → Table.Undisturbed task.started.agents s.db.agents id := by
      constructor
      · intro h
        refine ⟨step_due hdue ▸ h.one, fun id heq => ?_, fun id heq => ?_⟩
        · obtain ⟨hcall, hlast⟩ := (hsetter id).1.mpr heq
          exact h.model task st id hdue hcall hlast
        · obtain ⟨hcall, hlast⟩ := (hsetter id).2.mpr heq
          exact h.agent task st id hdue hcall hlast
      · rintro ⟨hone, hmodel, hagent⟩
        constructor
        · rw [step_due hdue]
          exact hone
        · intro task' st' id hdue' hcall hlast
          obtain ⟨rfl, rfl⟩ : task = task' ∧ st = st' := by simpa [hdue] using hdue'
          exact hmodel id ((hsetter id).1.mp ⟨hcall, hlast⟩)
        · intro task' st' id hdue' hcall hlast
          obtain ⟨rfl, rfl⟩ : task = task' ∧ st = st' := by simpa [hdue] using hdue'
          exact hagent id ((hsetter id).2.mp ⟨hcall, hlast⟩)
    have hcareful : s.Careful act ↔ st.Careful task.started s.db := by
      unfold Sys.Careful
      simp only [hdue, Option.some.injEq, Prod.mk.injEq]
      constructor
      · intro h
        exact h task st ⟨rfl, rfl⟩
      · rintro h _ _ ⟨rfl, rfl⟩
        exact h
    rw [hgood, hcareful]
    cases st with
    | models st =>
      have htable := careful_iff task.started.models hs.one.models st
      constructor
      · rintro ⟨hone, hmodel, -⟩
        exact htable.mp ⟨hone.models, fun id heq => hmodel id (congrArg _ heq)⟩
      · intro h
        obtain ⟨hone, hmodel⟩ := htable.mpr h
        exact ⟨⟨hone, hs.one.agents⟩, fun id heq => hmodel id (DbStatement.models.inj heq), nofun⟩
    | agents st =>
      have htable := careful_iff task.started.agents hs.one.agents st
      constructor
      · rintro ⟨hone, -, hagent⟩
        exact htable.mp ⟨hone.agents, fun id heq => hagent id (congrArg _ heq)⟩
      · intro h
        obtain ⟨hone, hagent⟩ := htable.mpr h
        exact ⟨⟨hs.one.models, hone⟩, nofun, fun id heq => hagent id (DbStatement.agents.inj heq)⟩

theorem inv_step (hs : s.Inv) (h : s.Good act) : (s.step act).Inv where
  one := h.one
  tasks := by
    cases act with
    | call c =>
      intro task htask
      rcases List.mem_append.mp htask with htask | htask
      · exact hs.tasks task htask
      · rw [List.mem_singleton.mp htask]
    | fail i =>
      intro task htask
      exact hs.tasks task (List.mem_of_mem_eraseIdx htask)
    | statement i =>
      cases hdue : s.due (.statement i) with
      | none =>
        simp only [Sys.step, hdue]
        exact hs.tasks
      | some due =>
        obtain ⟨task, st⟩ := due
        obtain ⟨j, hj, htask, -⟩ := due_some hdue
        simp only [Sys.step, hdue]
        intro task' htask'
        rcases List.mem_or_eq_of_mem_set htask' with h' | rfl
        · exact hs.tasks task' h'
        · exact (List.tail_suffix _).trans (hs.tasks task (List.mem_of_getElem? htask))

/-- The predicate holds at every step of the run. -/
def Sys.Every (p : Sys → Act → Prop) : Sys → List Act → Prop
  | _, [] => True
  | s, act :: acts => p s act ∧ (s.step act).Every p acts

/-- Over interleaved calls there is one default in each table, and setters of unknown ids leave it as it was,
    exactly where all statements are careful. -/
theorem one_default_iff (db : Db) (hone : db.OneDefault) (acts : List Act) :
    Sys.Every Sys.Good ⟨db, []⟩ acts ↔ Sys.Every Sys.Careful ⟨db, []⟩ acts := by
  have hstart : Sys.Inv ⟨db, []⟩ := ⟨hone, fun task htask => by cases htask⟩
  generalize (⟨db, []⟩ : Sys) = s at hstart
  induction acts generalizing s with
  | nil => exact Iff.rfl
  | cons act acts ih =>
    show s.Good act ∧ _ ↔ s.Careful act ∧ _
    rw [← good_iff hstart]
    refine and_congr_right fun hgood => ?_
    exact ih _ (inv_step hstart hgood)

theorem one_default_iff_empty :
    Sys.Every Sys.Good ⟨⟨Table.empty, Table.empty⟩, []⟩ [.call (.set_model_default "gpt"), .statement 0] ↔
      Sys.Every Sys.Careful ⟨⟨Table.empty, Table.empty⟩, []⟩ [.call (.set_model_default "gpt"), .statement 0] :=
  one_default_iff _ ⟨empty_oneDefault, empty_oneDefault⟩ _

/-- Two models are inserted as the default. -/
theorem not_one_default : ¬ ∀ (db : Db) (acts : List Act), db.OneDefault → Sys.Every Sys.Good ⟨db, []⟩ acts := by
  intro h
  let insert (id : String) : Act := .call (.upsert_model { id := id, is_default := true })
  have hgood := h ⟨Table.empty, Table.empty⟩ [insert "a", insert "b", .statement 0, .statement 1]
    ⟨empty_oneDefault, empty_oneDefault⟩
  have hone := hgood.2.2.2.1.one.models
  revert hone
  decide

end Ai
