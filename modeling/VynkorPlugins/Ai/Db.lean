import Mathlib.Data.List.Nodup

/-!
# The models and agents of the store

The statements on the two tables with a default (`db.rs`), and the calls that are made of them. The lock of
the connection is released between two statements.
-/

namespace Ai

/-- A model the plugin can complete with. -/
structure Model where
  id : String
  provider : String := ""
  base_url : String := ""
  api_key_env : String := ""
  is_default : Bool := false
  discovered_at : Option Int := none
  last_seen : Int := 0

/-- A named agent profile: a model plus the behavior framing around it. -/
structure Agent where
  id : String
  name : String
  model_id : String
  system_prompt : String := ""
  goal : String := ""
  description : String := ""
  is_default : Bool := false
  created_at : Int := 0

/-! ## Tables -/

/-- Rows with a key and a flag. -/
class Row (α : Type) where
  id : α → String
  is_default : α → Bool
  flagged : Bool → α → α
  id_flagged : ∀ b r, id (flagged b r) = id r
  is_default_flagged : ∀ b r, is_default (flagged b r) = b

attribute [simp] Row.id_flagged Row.is_default_flagged

instance : Row Model where
  id := Model.id
  is_default := Model.is_default
  flagged b m := { m with is_default := b }
  id_flagged _ _ := rfl
  is_default_flagged _ _ := rfl

instance : Row Agent where
  id := Agent.id
  is_default := Agent.is_default
  flagged b a := { a with is_default := b }
  id_flagged _ _ := rfl
  is_default_flagged _ _ := rfl

/-- A table with its primary key. -/
structure Table (α : Type) [Row α] where
  rows : List α
  primary_key : (rows.map Row.id).Nodup

section

variable {α : Type} [Row α]

def Table.ids (t : Table α) : List String := t.rows.map Row.id

def Table.empty : Table α where
  rows := []
  primary_key := List.nodup_nil

theorem map_ids {f : α → α} (h : ∀ r, Row.id (f r) = Row.id r) (rows : List α) :
    (rows.map f).map Row.id = rows.map Row.id := by
  rw [List.map_map]
  exact List.map_congr_left fun r _ => h r

/-- `UPDATE … SET`, where the key stays. -/
def Table.update (t : Table α) (f : α → α) (h : ∀ r, Row.id (f r) = Row.id r) : Table α where
  rows := t.rows.map f
  primary_key := by
    rw [map_ids h]
    exact t.primary_key

/-- `INSERT … ON CONFLICT(id) DO UPDATE SET` of all other columns. -/
def Table.upsert (t : Table α) (row : α) : Table α :=
  if h : Row.id row ∈ t.ids then
    t.update (fun r => if Row.id r = Row.id row then row else r) fun r => by
      split_ifs with heq
      · exact heq.symm
      · rfl
  else
    { rows := t.rows ++ [row]
      primary_key := by
        rw [List.map_append]
        exact List.nodup_append.mpr ⟨t.primary_key, List.nodup_singleton _, by
          intro a ha b hb
          rw [List.map_singleton, List.mem_singleton] at hb
          rintro rfl
          exact h (hb ▸ ha)⟩ }

def Table.delete (t : Table α) (id : String) : Table α where
  rows := t.rows.filter fun r => Row.id r ≠ id
  primary_key := t.primary_key.sublist (List.filter_sublist.map _)

/-- The statements on a table. -/
inductive Statement (α : Type) where
  | upsert (row : α)
  | delete (id : String)
  | clear
  | flag (id : String)

def Statement.execute (t : Table α) : Statement α → Table α
  | .upsert row => t.upsert row
  | .delete id => t.delete id
  | .clear => t.update (Row.flagged false) (Row.id_flagged false)
  | .flag id => t.update (fun r => if Row.id r = id then Row.flagged true r else r) fun r => by
      split_ifs
      · exact Row.id_flagged true r
      · rfl

end

/-! ## Calls -/

structure Db where
  models : Table Model
  agents : Table Agent

inductive DbStatement where
  | models (s : Statement Model)
  | agents (s : Statement Agent)

def DbStatement.execute (db : Db) : DbStatement → Db
  | .models s => { db with models := s.execute db.models }
  | .agents s => { db with agents := s.execute db.agents }

inductive Call where
  | upsert_model (m : Model)
  | delete_model (id : String)
  | set_model_default (id : String)
  | upsert_agent (a : Agent)
  | delete_agent (id : String)
  | set_agent_default (id : String)

def Call.statements : Call → List DbStatement
  | .upsert_model m => [.models (.upsert m)]
  | .delete_model id => [.models (.delete id)]
  | .set_model_default id => [.models .clear, .models (.flag id)]
  | .upsert_agent a => [.agents (.upsert a)]
  | .delete_agent id => [.agents (.delete id)]
  | .set_agent_default id => [.agents .clear, .agents (.flag id)]

/-! ## Tasks -/

/-- A call under way: the statements that it has yet to execute, and the store before the last one that it
    has executed. -/
structure Task where
  call : Call
  remaining : List DbStatement
  started : Db

structure Sys where
  db : Db
  tasks : List Task

/-- A task makes a call, or one under way executes its next statement, or that statement fails. -/
inductive Act where
  | call (c : Call)
  | statement (i : Nat)
  | fail (i : Nat)

/-- The task that executes a statement. -/
def Sys.due (s : Sys) : Act → Option (Task × DbStatement)
  | .statement i =>
    match s.tasks[i]? with
    | some task => task.remaining.head?.map fun st => (task, st)
    | none => none
  | _ => none

def Sys.step (s : Sys) (act : Act) : Sys :=
  match act with
  | .call c => { s with tasks := s.tasks ++ [{ call := c, remaining := c.statements, started := s.db }] }
  | .fail i => { s with tasks := s.tasks.eraseIdx i }
  | .statement i =>
    match s.due (.statement i) with
    | none => s
    | some (task, st) =>
      { db := st.execute s.db
        tasks := s.tasks.set i { task with remaining := task.remaining.tail, started := s.db } }

def Sys.run (s : Sys) (acts : List Act) : Sys := acts.foldl Sys.step s

end Ai
