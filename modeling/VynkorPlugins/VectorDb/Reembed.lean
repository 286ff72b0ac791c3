import VynkorPlugins.Base.Transition
import VynkorPlugins.VectorDb.Handler

/-!
# Re-embedding a collection

The task that recomputes the vectors of a collection with another model (`reembed_collection`), and the
transaction that publishes them (`swap_inner`), while rows of the file are deleted.
-/

namespace VectorDb

variable {F : Type}

inductive SwapOutcome
  | Done (n : Nat)
  | Stale (n : Nat)

namespace Db

/-- `left join vectors_reembed`. -/
def shadowOf (db : Db F) (r : Row F) : Option (Shadow F) :=
  (db.vectors_reembed.findKey Shadow.key r.key).map Prod.snd

def shadowsOf (db : Db F) (collection : String) : List (Nat × Shadow F) :=
  db.vectors_reembed.selectWhere fun _ s => s.collection = collection

/-- Rows with no shadow yet, or whose text changed since it was embedded. -/
def unshadowed (db : Db F) (collection : String) : List (Nat × Row F) :=
  (db.rowsOf collection).filter fun r =>
    r.2.text ≠ "" ∧ (db.shadowOf r.2).all fun s => s.text ≠ r.2.text

def clearShadow (db : Db F) (collection : String) : Db F :=
  { db with vectors_reembed := db.vectors_reembed.deleteWhere fun _ s => s.collection = collection }

/-- The vector of an id and a text. -/
def putShadow (collection : String) (db : Db F) (r : (String × String) × List F) : Db F :=
  let shadow : Shadow F := { collection, id := r.1.1, text := r.1.2, vector := r.2 }
  { db with vectors_reembed := db.vectors_reembed.upsert Shadow.key shadow }

/-- The shadow vector of a row, if it was computed from its current text. -/
def newVector (db : Db F) (r : Row F) : Option (List F) :=
  ((db.shadowOf r).filter fun s => s.text = r.text).map Shadow.vector

/-- The transaction of `swap_inner`. -/
def swap_reembedded (db : Db F) (collection model : String) : Except String (Db F × SwapOutcome) :=
  let stale := (db.unshadowed collection).length
  if stale > 0 then .ok (db, .Stale stale)
  else
    let vectors := db.vectors.deleteWhere fun _ r => r.collection = collection ∧ r.text = ""
    let tx : Db F := { db with vectors }
    let new_dim := (db.shadowsOf collection).head?.map fun s => s.2.vector.length
    if (tx.rowsOf collection).any fun r => (db.newVector r.2).isNone then
      .error "NOT NULL constraint failed: vectors.vector"
    else
      .ok ({
        collections := db.collections.modify collection fun c => { dim := new_dim.getD c.dim, model }
        vectors := vectors.map fun _ r =>
          if r.collection = collection then { r with vector := (db.newVector r).getD r.vector } else r
        vectors_reembed := db.vectors_reembed.deleteWhere fun _ s => s.collection = collection },
        .Done (tx.rowsOf collection).length)

end Db

/-! ## The task -/

def MAX_PASSES : Nat := 10

/-- What the task does next. A pass is told by how many more there may be. -/
inductive Pc (F : Type)
  | ddl
  | clear
  | select (pass : Nat)
  | embed (pass : Nat) (rows : List (String × String))
  | insert (pass : Nat) (rows : List ((String × String) × List F))
  | dims (pass : Nat)
  | swap (pass : Nat)
  | failed (e : String)
  | finished (result : Except String Nat)

/-- A file, and the task of one of its collections. -/
structure Reembed (F : Type) where
  db : Db F
  pc : Pc F

/-- How a call to the file or to `ai` ends. -/
inductive Fate
  | ok
  | refused (e : String)

inductive ReembedLabel
  | task (fate : Fate)
  | delete (collection id : String)

section

variable (collection model : String) (page : Nat) (new : String → List F)

/-- The vectors of a page, which have to have one dimension. -/
def Reembed.embedded (s : Reembed F) (pass : Nat) (rows : List (String × String)) : Reembed F :=
  let vectors := rows.map fun r => new r.2
  if vectors.head?.any fun v => vectors.any fun v' => v'.length ≠ v.length then
    { s with pc := .failed "model returned mixed dimensions" }
  else { s with pc := .insert pass (rows.zip vectors) }

def Reembed.selected (s : Reembed F) (pass : Nat) : Reembed F :=
  match (s.db.unshadowed collection).take page with
  | [] => { s with pc := .dims pass }
  | rows => { s with pc := .embed pass (rows.map fun r => (r.2.id, r.2.text)) }

/-- `select distinct length(vector) / 4`. -/
def Reembed.checked (s : Reembed F) (pass : Nat) : Reembed F :=
  if ((s.db.shadowsOf collection).map fun s => s.2.vector.length).dedup.length > 1 then
    { s with pc := .failed "model returned mixed dimensions" }
  else { s with pc := .swap pass }

def Reembed.swapped (s : Reembed F) (pass : Nat) : Reembed F :=
  match s.db.swap_reembedded collection model, pass with
  | .error e, _ => { s with pc := .failed e }
  | .ok (db, .Done n), _ => { db, pc := .finished (.ok n) }
  | .ok (db, .Stale _), pass + 1 => { db, pc := .select pass }
  | .ok (db, .Stale _), 0 =>
    { db, pc := .failed ("collection " ++ collection ++ " kept changing during re-embed") }

/-- The next step of the task. Clearing the shadow may fail unnoticed. -/
def Reembed.next (s : Reembed F) : Fate → Option (Reembed F)
  | .ok =>
    match s.pc with
    | .ddl => some { s with pc := .clear }
    | .clear => some { db := s.db.clearShadow collection, pc := .select (MAX_PASSES - 1) }
    | .select pass => some (s.selected collection page pass)
    | .embed pass rows => some (s.embedded new pass rows)
    | .insert pass rows => some { db := rows.foldl (Db.putShadow collection) s.db, pc := .select pass }
    | .dims pass => some (s.checked collection pass)
    | .swap pass => some (s.swapped collection model pass)
    | .failed e => some { db := s.db.clearShadow collection, pc := .finished (.error e) }
    | .finished _ => none
  | .refused e =>
    match s.pc with
    | .ddl => some { s with pc := .finished (.error e) }
    | .clear => some { s with pc := .select (MAX_PASSES - 1) }
    | .failed e' => some { s with pc := .finished (.error e') }
    | .finished _ => none
    | _ => some { s with pc := .failed e }

/-- The task moves, or a row is deleted. -/
def Reembed.step (s : Reembed F) : ReembedLabel → Option (Reembed F)
  | .task fate => s.next collection model page new fate
  | .delete name id => some { s with db := (s.db.delete name id).1 }

end

/-! ## What the task is for -/

section

variable (collection model : String) (new : String → List F)

/-- The rows that are left are as they were before, and so is the collection. -/
def Unchanged (before db : Db F) : Prop :=
  db.collections[collection]? = before.collections[collection]? ∧
    ∀ r ∈ db.rowsOf collection, r ∈ before.rowsOf collection

/-- Each row that is left has a text, and the new vector of this text. -/
def Reembedded (before db : Db F) : Prop :=
  ∀ r ∈ db.rowsOf collection, r.2.text ≠ "" ∧ r.2.vector = new r.2.text ∧
    ∃ old ∈ before.rowsOf collection, old.1 = r.1 ∧ r.2 = { old.2 with vector := r.2.vector }

/-- A new vector passes the checks of its dimension: that of the embedded text, and those of a write
    and a search. -/
def Passes (db : Db F) : Prop :=
  ∀ text, dim_mismatch (db.collection_dim collection) [new text] = none ∧
    db.collection_dim collection = some (new text).length ∧
    ∀ rows, ∃ db', db.upsert collection (new text).length (some model) rows = .ok db'

/-- A task that has failed has changed nothing, and a task that has succeeded has changed everything. -/
def Reembed.Atomic (before : Db F) (s : Reembed F) : Prop :=
  match s.pc with
  | .finished (.error _) => Unchanged collection before s.db
  | .finished (.ok _) =>
    Reembedded collection new before s.db ∧ s.db.model collection = model ∧
      Passes collection model new s.db
  | _ => True

/-- The shadow that an earlier task has left is cleared, and the swap finds a shadow, or a collection
    that has the new dimension already. -/
def Reembed.Swappable (dim : Nat) (s : Reembed F) : ReembedLabel → Prop
  | .task (.refused _) =>
    match s.pc with
    | .clear => s.db.shadowsOf collection = []
    | _ => True
  | .task .ok =>
    match s.pc with
    | .swap _ => s.db.shadowsOf collection ≠ [] ∨ s.db.collection_dim collection = some dim
    | _ => True
  | .delete .. => True

instance (dim : Nat) (s : Reembed F) (l : ReembedLabel) : Decidable (s.Swappable collection dim l) := by
  unfold Reembed.Swappable
  split
  · split <;> infer_instance
  · split <;> infer_instance
  · infer_instance

end

end VectorDb
