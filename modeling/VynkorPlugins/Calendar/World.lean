import VynkorPlugins.Base.Async
import VynkorPlugins.Calendar.Tasks

/-!
# The calendar and its database

Any number of tasks over one store of events. The clock and the fate of the calls change by themselves at
any time.
-/

namespace Calendar

open Async

/-- The documents are stored under their ids. -/
structure World where
  docs : Table String EventDoc
  keyed : ∀ (id : String) (doc : EventDoc), docs[id]? = some doc → doc.id = id
  next_id : Nat
  clock : Int64
  fate : Fate

namespace World

variable (w : World)

/-- `db_batch_get`. -/
def rows (keys : List String) : List EventDoc :=
  (w.docs.selectWhere fun id _ => id ∈ keys).map Prod.snd

def put (doc : EventDoc) : World :=
  { w with
    docs := w.docs.insert doc.id doc
    keyed := by
      intro id doc' h
      rw [Table.getElem?_insert_ite] at h
      split_ifs at h with hid
      · obtain rfl := Option.some.inj h
        exact hid
      · exact w.keyed id doc' h }

def delete (id : String) : World :=
  { w with
    docs := w.docs.erase id
    keyed := by
      intro id' doc h
      rw [Table.getElem?_erase_ite] at h
      split_ifs at h
      exact w.keyed id' doc h }

/-- The world as it will be for the next call. -/
def turn (clock : Int64) (fate : Fate) : World := { w with clock, fate }

/-- What a task is answered, and what becomes of the world. -/
def serve : (e : Eff) → World → e.Answer × World
  | .now, w => (w.clock, w)
  | .db_keys, w => (w.fate.answer w.docs.keys, w)
  | .db_batch_get keys, w => (w.fate.answer (w.rows keys), w)
  | .db_get id, w => (w.fate.answer w.docs[id]?, w)
  | .db_set _ doc, w => (w.fate.answer (), w.fate.write w (w.put doc))
  | .db_delete id, w => (w.fate.answer (w.docs.contains id), w.fate.write w (w.delete id))
  | .db_incr, w =>
    (w.fate.answer (w.next_id + 1), w.fate.write w { w with next_id := w.next_id + 1 })
  | .publish_due _, w => ((), w)
  | .notify_send _, w => (w.fate.answer (), w)
  | .reply _, w => ((), w)
  | .publish_changed _, w => ((), w)

end World

variable {w : World}

/-- The documents that a task is given are the stored ones. -/
theorem World.mem_rows {keys : List String} {doc : EventDoc} (h : doc ∈ w.rows keys) :
    w.docs[doc.id]? = some doc := by
  obtain ⟨⟨id', doc'⟩, hrow, rfl⟩ := List.mem_map.mp h
  obtain ⟨hstored, -⟩ := Table.mem_selectWhere.mp hrow
  rw [w.keyed id' doc' hstored]
  exact hstored

theorem World.nodup_rows (w : World) (keys : List String) :
    ((w.rows keys).map EventDoc.id).Nodup := by
  have hids : (w.rows keys).map EventDoc.id =
      (w.docs.selectWhere fun id _ => id ∈ keys).map Prod.fst := by
    unfold World.rows
    rw [List.map_map]
    refine List.map_congr_left fun row hrow => ?_
    obtain ⟨id, doc⟩ := row
    exact w.keyed id doc (Table.mem_selectWhere.mp hrow).1
  rw [hids]
  exact Table.nodup_selectWhere _ _

/-- What is stored after a document was written. -/
theorem World.getElem?_put (w : World) (doc : EventDoc) (id : String) :
    (w.put doc).docs[id]? = if doc.id = id then some doc else w.docs[id]? :=
  Table.getElem?_insert_ite w.docs doc.id id doc

theorem World.getElem?_delete (w : World) (id' id : String) :
    (w.delete id').docs[id]? = if id' = id then none else w.docs[id]? :=
  Table.getElem?_erase_ite w.docs id' id

/-- A task is answered by the world as it is. -/
def Handle (_i : Nat) (w : World) (e : Eff) (r : e.Answer) (w' : World) : Prop :=
  w.serve e = (r, w')

/-- Any clock, and any fate of the calls. -/
def Turn (w : World) (l : Int64 × Fate) (w' : World) : Prop := w' = w.turn l.1 l.2

abbrev Tasks := Pool Nat Eff Eff.Answer Unit World

abbrev TaskLabel := PoolLabel Nat Eff Eff.Answer (Int64 × Fate)

abbrev TaskStep : Tasks → TaskLabel → Tasks → Prop := PoolStep Handle Turn

/-- No task has begun. -/
def Tasks.start (c : Crates) (config : Config) (spawn : Nat → Spawn) (world : World) : Tasks where
  tasks i := (spawn i).task c config
  world := world

/-- A call while no other task moves: at any clock, and with any fate. -/
def Alone (w : World) (e : Eff) (r : e.Answer) (w' : World) : Prop :=
  ∃ clock fate, (w.turn clock fate).serve e = (r, w')

/-- A call that succeeds. -/
def World.serveOk (clock : Int64) (e : Eff) (w : World) : e.Answer × World :=
  (w.turn clock .ok).serve e

/-- A function whose calls all succeed. -/
theorem exec_serveOk {α : Type} (clock : Int64) (m : Act α) (w : World) :
    Exec Alone w m (run (World.serveOk clock) m w).1 (run (World.serveOk clock) m w).2 :=
  exec_run (fun _ _ => ⟨clock, .ok, rfl⟩) m w

/-- Nothing is stored. -/
def World.empty : World where
  docs := ∅
  keyed id doc h := by simp at h
  next_id := 0
  clock := 0
  fate := .ok

/-! ## Runs that are computed -/

/-- A task moves, or the clock and the fate of the calls change. -/
inductive TaskRequest where
  | act (i : Nat)
  | turn (clock : Int64) (fate : Fate)

def answerTask (cond : World → TaskLabel → Prop) [∀ w l, Decidable (cond w l)] (p : Tasks) :
    TaskRequest → Option (TaskLabel × Tasks)
  | .act i =>
    match p.tasks i with
    | .done _ => none
    | .call e k =>
      let served := p.world.serve e
      if cond p.world (.act i e served.1) then
        some (.act i e served.1,
          { tasks := Function.update p.tasks i (k served.1), world := served.2 })
      else none
  | .turn clock fate =>
    if cond p.world (.env (clock, fate)) then
      some (.env (clock, fate), { p with world := p.world.turn clock fate })
    else none

theorem taskStep_answerTask {cond : World → TaskLabel → Prop} [∀ w l, Decidable (cond w l)]
    {p p' : Tasks} {a : TaskRequest} {l : TaskLabel} (h : answerTask cond p a = some (l, p')) :
    Transition.Where (fun p l => cond p.world l) TaskStep p l p' := by
  unfold answerTask at h
  split at h
  · rename_i i
    split at h
    · cases h
    · rename_i e k htask
      simp only at h
      split_ifs at h with hc
      obtain ⟨rfl, rfl⟩ := Prod.mk.inj (Option.some.inj h)
      exact ⟨.act htask rfl, hc⟩
  · rename_i clock fate
    split_ifs at h with hc
    obtain ⟨rfl, rfl⟩ := Prod.mk.inj (Option.some.inj h)
    exact ⟨.env rfl, hc⟩

end Calendar
