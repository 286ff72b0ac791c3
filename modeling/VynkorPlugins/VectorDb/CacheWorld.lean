import Mathlib.Algebra.BigOperators.Group.Finset.Basic
import VynkorPlugins.VectorDb.Cache

/-!
# What the operations of the cache share

The slots with their locks and counters, the global counter and the files of the callers. Any number of
operations run on them, each of which moves at each of its effects.
-/

namespace VectorDb

open Async

namespace VecCache

/-- A slot that was not made yet is empty. -/
structure Slot (F : Type) where
  state : Option (Loaded F)
  /-- The operations that hold the state lock for reading, and the one that holds it for writing. -/
  readers : Finset Nat
  guard : Option Nat
  writer : Option Nat
  last_used : Int
  bytes : Nat

structure World (F : Type) where
  slots : Key → Slot F
  /-- The slots that were made. -/
  known : Finset Key
  total : Nat
  files : String → Db F
  now : Int
  /-- What the armed reservation of an operation stands for. -/
  reservations : Nat → Nat
  /-- The operations that have begun. -/
  begun : Finset Nat
  /-- Whether a writer of the collection has committed and the copy was not updated since. No operation
      reads it. -/
  behind : Key → Bool

/-- How an effect turns out. -/
inductive Outcome
  | ok
  | refused (e : String)
  | dropped
  /-- The order in which the slots are listed. -/
  | order (keys : List Key)

section

variable {F S : Type}

/-- The size of a copy, 0 if there is none. -/
def Slot.held (s : Slot F) : Nat :=
  (s.state.map Loaded.bytes).getD 0

def Slot.free (s : Slot F) : Bool :=
  s.guard = none ∧ s.readers = ∅

namespace World

variable (w : World F)

def setSlot (key : Key) (s : Slot F) : World F :=
  { w with slots := Function.update w.slots key s }

def setFile (key : Key) (db : Db F) : World F :=
  { w with files := Function.update w.files key.1 db }

def setBehind (key : Key) (b : Bool) : World F :=
  { w with behind := Function.update w.behind key b }

/-- The copy after an update, if there is one, and its size. -/
def update (key : Key) (f : Loaded F → Loaded F) : Option Nat × World F :=
  let s := w.slots key
  let state := s.state.map f
  (state.map Loaded.bytes, (w.setSlot key { s with state }).setBehind key false)

/-- A transaction that is committed. -/
def commit {α : Type} (key : Key) (a : α) (db : Db F) : Except String α × World F :=
  (.ok a, (w.setFile key db).setBehind key true)

def upsert (key : Key) (dim : Nat) (model : Option String) (rows : List (UpsertRow F)) :
    Except String Unit × World F :=
  match (w.files key.1).upsert key.2 dim model rows with
  | .error e => (.error e, w)
  | .ok db => w.commit key () db

def delete (key : Key) (id : String) : Except String Bool × World F :=
  let r := (w.files key.1).delete key.2 id
  w.commit key r.2 r.1

def swap_reembedded (key : Key) (model : String) : Except String SwapOutcome × World F :=
  match (w.files key.1).swap_reembedded key.2 model with
  | .error e => (.error e, w)
  | .ok (_, .Stale n) => (.ok (.Stale n), w)
  | .ok (db, .Done n) => w.commit key (.Done n) db

end World

/-- What an effect is answered, and what becomes of the world. One that has to wait has no answer. -/
def World.serve (c : CacheConfig) (serde : Serde) (i : Nat) (w : World F) :
    (e : Eff F) → Outcome → Option (e.Answer × World F)
  | .dropped, o => some (o matches .dropped, w)
  | .never, _ => none
  | .existing_slot key, _ => some (key ∈ w.known, w)
  | .slot key, _ => some ((), { w with known := insert key w.known })
  | .slots, .order keys => if keys.Nodup ∧ keys.toFinset = w.known then some (keys, w) else none
  | .slots, _ => none
  | .touch key, _ => some ((), w.setSlot key { w.slots key with last_used := w.now })
  | .last_used key, _ => some ((w.slots key).last_used, w)
  | .lock_writer key, _ =>
    if (w.slots key).writer = none then
      some ((), w.setSlot key { w.slots key with writer := some i })
    else none
  | .unlock_writer key, _ => some ((), w.setSlot key { w.slots key with writer := none })
  | .read key, _ =>
    let s := w.slots key
    if s.guard = none then some ((), w.setSlot key { s with readers := insert i s.readers }) else none
  | .unlock_read key, _ =>
    let s := w.slots key
    some ((), w.setSlot key { s with readers := s.readers.erase i })
  | .write key, _ =>
    let s := w.slots key
    if s.free then some ((), w.setSlot key { s with guard := some i }) else none
  | .try_write key, _ =>
    let s := w.slots key
    if s.free then some (true, w.setSlot key { s with guard := some i }) else some (false, w)
  | .unlock_write key, _ => some ((), w.setSlot key { w.slots key with guard := none })
  | .copy key, _ => some ((w.slots key).state, w)
  | .take key, _ =>
    let s := w.slots key
    some (s.state.isSome, (w.setSlot key { s with state := none }).setBehind key false)
  | .push key rows, _ => some (w.update key fun l => l.pushRows serde rows)
  | .remove key id, _ => some (w.update key fun l => (l.remove id).1)
  | .install key l, _ =>
    let s := w.slots key
    some ((), { w.setSlot key { s with state := some l, bytes := l.bytes } with
      reservations := Function.update w.reservations i 0 })
  | .bytes key, _ => some ((w.slots key).bytes, w)
  | .store_bytes key n, _ => some ((), w.setSlot key { w.slots key with bytes := n })
  | .swap_bytes key, _ =>
    let s := w.slots key
    some (s.bytes, w.setSlot key { s with bytes := 0 })
  | .total, _ => some (w.total, w)
  | .try_reserve n, _ =>
    if w.total + n ≤ c.max_bytes then some (true, { w with total := w.total + n }) else some (false, w)
  | .release n, _ => some ((), { w with total := w.total - n })
  | .reserved n, _ => some ((), { w with reservations := Function.update w.reservations i n })
  | .drop_reservation, _ =>
    some ((), { w with
      total := w.total - w.reservations i
      reservations := Function.update w.reservations i 0 })
  | .collection_dim _, .refused e => some (.error e, w)
  | .collection_dim key, _ => some (.ok ((w.files key.1).collection_dim key.2), w)
  | .estimate .., .refused e => some (.error e, w)
  | .estimate key dim, _ => some (.ok ((w.files key.1).estimate key.2 dim), w)
  | .page .., .refused e => some (.error e, w)
  | .page key last, _ => some (.ok ((w.files key.1).page key.2 last), w)
  | .upsert .., .refused e => some (.error e, w)
  | .upsert key dim model rows, _ => some (w.upsert key dim model rows)
  | .delete .., .refused e => some (.error e, w)
  | .delete key id, _ => some (w.delete key id)
  | .swap_reembedded .., .refused e => some (.error e, w)
  | .swap_reembedded key model, _ => some (w.swap_reembedded key model)

def World.begin (w : World F) (i : Nat) : World F :=
  { w with begun := insert i w.begun }

/-- Any effect may turn out in any way. -/
def Handle (c : CacheConfig) (serde : Serde) (i : Nat) (w : World F) (e : Eff F) (r : e.Answer)
    (w' : World F) : Prop :=
  ∃ outcome, (w.begin i).serve c serde i e outcome = some (r, w')

/-- What moves by itself. A re-embed that is under way writes its shadow. -/
inductive EnvMove (F : Type)
  | tick (now : Int)
  | shadow (caller : String) (rows : Table Nat (Shadow F))

def EnvMove.apply (w : World F) : EnvMove F → World F
  | .tick now => { w with now }
  | .shadow caller rows =>
    let db := w.files caller
    { w with files := Function.update w.files caller { db with vectors_reembed := rows } }

/-- The handler has checked the dimension of the vectors it writes. -/
inductive Op (F : Type)
  | upsert (key : Key) (dim : Nat) (model : Option String) (rows : List (UpsertRow F))
      (checked : ∀ r ∈ rows, r.vector.length = dim)
  | delete (key : Key) (id : String)
  | query (key : Key) (r : Query F)
  | evict_idle (now : Int)
  | invalidate (key : Key)
  | swap_reembedded (key : Key) (model : String)

/-- The configuration of the cache, and what it takes from outside. -/
structure Env (F S : Type) where
  c : CacheConfig
  serde : Serde
  score : List F → List F → S

def Op.task [LinearOrder S] (E : Env F S) (fuel : Nat) : Op F → Act F Unit
  | .upsert key dim model rows _ => do
    let _ ← upsert_inner E.c key dim model rows fuel
  | .delete key id => do
    let _ ← delete_inner E.c key id fuel
  | .query key r => do
    let _ ← VecCache.query E.serde E.score key r E.c fuel
  | .evict_idle now => do
    let _ ← VecCache.evict_idle E.c now
  | .invalidate key => VecCache.invalidate key
  | .swap_reembedded key model => do
    let _ ← swap_inner key model

abbrev Ops (F : Type) := Pool Nat (Eff F) Eff.Answer Unit (World F)

abbrev OpLabel (F : Type) := PoolLabel Nat (Eff F) Eff.Answer (EnvMove F)

abbrev OpStep (E : Env F S) : Ops F → OpLabel F → Ops F → Prop :=
  PoolStep (Handle E.c E.serde) fun w l w' => l.apply w = w'

def Slot.empty : Slot F where
  state := none
  readers := ∅
  guard := none
  writer := none
  last_used := 0
  bytes := 0

/-- No operation has begun, on the files as they were left. -/
def Ops.start [LinearOrder S] (E : Env F S) (files : String → { db : Db F // db.WellFormed })
    (spawn : Nat → Op F × Nat) : Ops F where
  tasks i := (spawn i).1.task E (spawn i).2
  world :=
    { slots := fun _ => .empty, known := ∅, total := 0, files := fun caller => (files caller).1
      now := 0, reservations := fun _ => 0, begun := ∅, behind := fun _ => false }

/-! ## Runs that are computed -/

/-- A task moves at its next effect, which turns out in a way. -/
def answerOp (c : CacheConfig) (serde : Serde) (p : Ops F) (a : Nat × Outcome) : Option (OpLabel F × Ops F) :=
  match p.tasks a.1 with
  | .done _ => none
  | .call e k =>
    ((p.world.begin a.1).serve c serde a.1 e a.2).map fun r =>
      (.act a.1 e r.1, { tasks := Function.update p.tasks a.1 (k r.1), world := r.2 })

theorem opStep_answerOp {E : Env F S} {p p' : Ops F} {a : Nat × Outcome} {l : OpLabel F}
    (h : answerOp E.c E.serde p a = some (l, p')) : OpStep E p l p' := by
  unfold answerOp at h
  split at h
  · cases h
  · rename_i e k htask
    obtain ⟨r, hserve, hr⟩ := Option.map_eq_some_iff.mp h
    obtain ⟨rfl, rfl⟩ := Prod.mk.inj hr
    exact .act htask ⟨a.2, hserve⟩

end

end VecCache

/-! ## Coherence -/

section

variable {F : Type}

/-- The vector and the metadata that a copy has for an id. -/
def Loaded.rowOf (l : Loaded F) (id : String) : Option (List F × Meta) :=
  (l.index[id]?).map fun i => ((l.data.drop (i * l.dim)).take l.dim, l.metadata.getD i [])

/-- The vector and the metadata that a file has for an id, if the vector has a dimension. -/
def Db.rowOf (serde : Serde) (db : Db F) (collection : String) (dim : Nat) (id : String) :
    Option (List F × Meta) :=
  ((db.vectors.findKey Row.key (collection, id)).filter fun r => r.2.vector.length = dim).map fun r =>
    (r.2.vector, parse_meta serde r.2.metadata)

/-- A copy is that of the rows of a collection that have its dimension. -/
def Coherent (serde : Serde) (db : Db F) (collection : String) (l : Loaded F) : Prop :=
  db.collection_dim collection = some l.dim ∧
    ∀ id, l.rowOf id = db.rowOf serde collection l.dim id

end

namespace VecCache

/-! ## Accounting -/

section

variable {F : Type}

/-- What an operation has changed the global counter by that is in no slot and no reservation yet. Only
    the second half of an update is left to do. -/
def InProgress (w : World F) (i : Nat) : Act F Unit → ℤ → Prop
  | .call (.store_bytes key n) _, d => d = n - (w.slots key).bytes
  | .call (.reserved n) _, d => d = n - w.reservations i
  | .call (.release n) _, d => d = 0 ∨ d = n
  | _, d => d = 0

open Finset in
/-- The budget is kept. -/
structure Accounted (c : CacheConfig) (p : Ops F) : Prop where
  /-- The global counter is what the slots and the reservations take up, up to updates in progress. -/
  counter : ∃ d : Nat → ℤ, (∀ i, InProgress p.world i (p.tasks i) (d i)) ∧
    (∀ i, i ∉ p.world.begun → d i = 0) ∧
    (p.world.total : ℤ) = ∑ key ∈ p.world.known, ((p.world.slots key).bytes : ℤ) +
      ∑ i ∈ p.world.begun, ((p.world.reservations i : ℤ) + d i)
  unknown : ∀ key, key ∉ p.world.known → (p.world.slots key).bytes = 0
  unreserved : ∀ i, i ∉ p.world.begun → p.world.reservations i = 0
  bounded : p.world.total ≤ c.max_bytes
  /-- No release saturates. -/
  release : ∀ i n k, p.tasks i = .call (.release n) k → n ≤ p.world.total
  drop : ∀ i k, p.tasks i = .call .drop_reservation k → p.world.reservations i ≤ p.world.total
  sizes : ∀ key, (p.world.slots key).guard = none → (p.world.slots key).bytes = (p.world.slots key).held

end

end VecCache

end VectorDb
