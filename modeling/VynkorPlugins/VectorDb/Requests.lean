import VynkorPlugins.VectorDb.Handler

/-!
# The requests and their file

Any number of requests on one file, each of which moves at each of its awaits. Beside the file the world
keeps what the handler knows of running re-embeds, and a history that no request reads: which rows have
a vector of the fake embedder, and what each request has read of its collection.
-/

namespace VectorDb

open Async

structure ReembedState where
  running : Bool
  fails : Nat
  retry_after_ms : Int

structure History where
  /-- Whether the vector of a row came from the fake embedder. -/
  fakes : String × String → Bool
  /-- The model of the collection when a request read it, empty for a collection that was not there. -/
  read_model : Nat → String

structure World (F : Type) where
  db : Db F
  reembedding : Table String ReembedState
  now : Int
  history : History

def Db.collection_info {F : Type} (db : Db F) (collection : String) : CollectionInfo :=
  (db.collections[collection]?).map fun c => (c.dim, c.model)

def reembedding_msg (collection model : String) : String :=
  "collection " ++ collection ++ " is being re-embedded for model " ++ model

namespace World

variable {F S : Type} (w : World F)

/-- Fails fast while a collection is being re-embedded, and starts the re-embed of a collection of
    another model. -/
def model_guard (collection : String) (info : CollectionInfo) (model : String) :
    Except String Unit × World F :=
  let refused : Except String Unit := .error (reembedding_msg collection model)
  let st := (w.reembedding[collection]?).getD { running := false, fails := 0, retry_after_ms := w.now }
  if st.running ∨ w.now < st.retry_after_ms then (refused, w)
  else if info.any fun i => i.2 ≠ "" ∧ i.2 ≠ model then
    (refused, { w with reembedding := w.reembedding.insert collection { st with running := true } })
  else (.ok (), w)

/-- The rows that are written, and where their vectors came from. -/
def write (collection : String) (rows : List (UpsertRow F × Bool)) (db : Db F) : World F :=
  { w with
    db
    history := { w.history with
      fakes := rows.foldl (fun fakes r => Function.update fakes (collection, r.1.id) r.2)
        w.history.fakes } }

end World

/-- How a call ends: as it should, with an error that leaves everything as it was, or with what `ai`
    or a search came to. -/
inductive Outcome (F S : Type)
  | ok
  | refused (e : String)
  | embedded (vectors : List (List F))
  | found (hits : List (String × S))

/-- What a request is answered, and what becomes of the world. -/
def World.serve {F S : Type} (i : Nat) : (e : Eff F) → Outcome F S → World F → e.Answer S × World F
  | .collection_info _, .refused e, w => (.error e, w)
  | .collection_info collection, _, w =>
    (.ok (w.db.collection_info collection), { w with history := { w.history with
      read_model := Function.update w.history.read_model i (w.db.model collection) } })
  | .model_guard collection info model, _, w => w.model_guard collection info model
  | .embed_many _, .embedded vectors, w => (.ok vectors, w)
  | .embed_many _, .refused e, w => (.error e, w)
  | .embed_many _, _, w => (.error "ai embedding aborted", w)
  | .upsert .., .refused e, w => (.error e, w)
  | .upsert collection dim model rows, _, w =>
    match w.db.upsert collection dim model (rows.map Prod.fst) with
    | .error e => (.error e, w)
    | .ok db => (.ok rows.length, w.write collection rows db)
  | .query .., .refused e, w => (.error e, w)
  | .query .., .found hits, w => (.ok hits, w)
  | .query .., _, w => (.ok [], w)

section

variable {F S : Type}

/-- Any effect may come to anything. -/
def Handle (i : Nat) (w : World F) (e : Eff F) (r : e.Answer S) (w' : World F) : Prop :=
  ∃ outcome, World.serve i e outcome w = (r, w')

/-- What moves by itself. A restart forgets the re-embeds. -/
inductive EnvMove
  | tick (now : Int)
  | restart

def EnvMove.apply (w : World F) : EnvMove → World F
  | .tick now => { w with now }
  | .restart => { w with reembedding := ∅ }

inductive Request (F : Type)
  | upsert (r : UpsertRequest F)
  | batch (r : BatchRequest F)
  | query (r : QueryRequest F)

/-- A request under the configuration it came with. -/
def Request.task (E : Embedder F) (c : Config) : Request F → Act F S Unit
  | .upsert r => do
    let _ ← VectorDb.upsert E c r
  | .batch r => do
    let _ ← batch_upsert E c r
  | .query r => do
    let _ ← VectorDb.query E c r

abbrev Requests (F S : Type) := Pool Nat (Eff F) (Eff.Answer S) Unit (World F)

abbrev RequestLabel (F S : Type) := PoolLabel Nat (Eff F) (Eff.Answer S) EnvMove

abbrev RequestStep : Requests F S → RequestLabel F S → Requests F S → Prop :=
  PoolStep Handle fun w l w' => l.apply w = w'

/-- No request has begun, on an empty file. -/
def Requests.start (E : Embedder F) (spawn : Nat → Config × Request F) : Requests F S where
  tasks i := (spawn i).2.task E (spawn i).1
  world :=
    { db := .empty, reembedding := ∅, now := 0
      history := { fakes := fun _ => false, read_model := fun _ => "" } }

/-! ## Vectors that do not mix -/

/-- A collection with a model has no row with a vector of the fake embedder. -/
def World.Unmixed (w : World F) : Prop :=
  ∀ (collection : String) (r : Row F), w.db.model collection ≠ "" → w.db.vectors.Has r →
    r.collection = collection → w.history.fakes (collection, r.id) = false

/-- A search with a vector of the fake embedder is not one of a collection with a model. -/
def SearchUnmixed (w : World F) : RequestLabel F S → Prop
  | .act _ (.query collection _ fake _ _) _ => fake = true → w.db.model collection = ""
  | _ => True

/-- Whether a write gives a model to a collection that has none. -/
def Db.stamps (db : Db F) (collection : String) (model : Option String) : Bool :=
  db.model collection = "" && model.any fun m => m ≠ ""

/-- No collection is stamped between the reading of its model and a write or a search with a vector of
    the fake embedder, and none is stamped that keeps a row with such a vector. -/
def Steady (w : World F) : RequestLabel F S → Prop
  | .act i (.upsert collection _ model rows) _ =>
    (rows.any Prod.snd = true → w.db.model collection = w.history.read_model i) ∧
      (w.db.stamps collection model = true → ∀ r ∈ w.db.rowsOf collection,
        r.2.id ∈ rows.map (fun row => row.1.id) ∨ w.history.fakes (collection, r.2.id) = false)
  | .act i (.query collection _ fake _ _) _ =>
    fake = true → w.db.model collection = w.history.read_model i
  | _ => True

instance (w : World F) (l : RequestLabel F S) : Decidable (Steady w l) := by
  unfold Steady
  split
  · infer_instance
  · infer_instance
  · infer_instance

instance (w : World F) (l : RequestLabel F S) : Decidable (SearchUnmixed w l) := by
  unfold SearchUnmixed
  split
  · infer_instance
  · infer_instance

/-! ## Runs that are computed -/

inductive RequestMove (F S : Type)
  | act (i : Nat) (outcome : Outcome F S)
  | env (move : EnvMove)

def answerRequest (cond : World F → RequestLabel F S → Prop) [∀ w l, Decidable (cond w l)]
    (p : Requests F S) : RequestMove F S → Option (RequestLabel F S × Requests F S)
  | .act i outcome =>
    match p.tasks i with
    | .done _ => none
    | .call e k =>
      let served := World.serve i e outcome p.world
      if cond p.world (.act i e served.1) then
        some (.act i e served.1,
          { tasks := Function.update p.tasks i (k served.1), world := served.2 })
      else none
  | .env move =>
    if cond p.world (.env move) then some (.env move, { p with world := move.apply p.world }) else none

theorem requestStep_answerRequest {cond : World F → RequestLabel F S → Prop}
    [∀ w l, Decidable (cond w l)] {p p' : Requests F S} {a : RequestMove F S} {l : RequestLabel F S}
    (h : answerRequest cond p a = some (l, p')) :
    Transition.Where (fun p l => cond p.world l) RequestStep p l p' := by
  unfold answerRequest at h
  split at h
  · rename_i i outcome
    split at h
    · cases h
    · rename_i e k htask
      simp only at h
      split_ifs at h with hc
      obtain ⟨rfl, rfl⟩ := Prod.mk.inj (Option.some.inj h)
      exact ⟨.act htask ⟨outcome, rfl⟩, hc⟩
  · split_ifs at h with hc
    obtain ⟨rfl, rfl⟩ := Prod.mk.inj (Option.some.inj h)
    exact ⟨.env rfl, hc⟩

end

end VectorDb
