import Mathlib.Data.Prod.Lex
import VynkorPlugins.Base.Table
import VynkorPlugins.Base.Selection
import VynkorPlugins.VectorDb.Loaded

/-!
# Searching a collection

The two ways to search a collection (`scan_loaded` and `scan_sqlite` of `cache.rs`), in its copy in
memory and in its stored rows. The score of a row for a query is a parameter.
-/

namespace VectorDb

/-- A candidate: its place in the copy, or its row number. -/
structure Cand (S : Type) where
  score : S
  idx : Nat
deriving DecidableEq

/-- What a candidate is compared by. -/
def Cand.cmp {S : Type} (c : Cand S) : S ×ₗ Natᵒᵈ :=
  toLex (c.score, OrderDual.toDual c.idx)

theorem Cand.cmp_injective {S : Type} : Function.Injective (Cand.cmp (S := S)) := by
  rintro ⟨a, i⟩ ⟨b, j⟩ h
  simp only [Cand.cmp, EmbeddingLike.apply_eq_iff_eq, Prod.mk.injEq] at h
  rw [h.1, h.2]

/-- "Greater" is better: a higher score, and on ties the earlier row. -/
instance {S : Type} [LinearOrder S] : LinearOrder (Cand S) :=
  LinearOrder.lift' Cand.cmp Cand.cmp_injective

section

variable {F S : Type} [LinearOrder S]

/-- Whether a search leaves a row out. -/
def filtered (filter : Option Meta) (metadata : Meta) : Bool :=
  filter.any fun f => !matches_filter metadata f

/-- `chunks_exact`. -/
def chunks (dim : Nat) (data : List F) : List (List F) :=
  (List.range (data.length / dim)).map fun i => (data.drop (i * dim)).take dim

/-- One chunk of a copy. -/
def scanChunk (score : List F → List F → S) (metadata : List Meta) (q : List F) (top_k : Nat)
    (filter : Option Meta) (top : List (Cand S)) (row : List F × Nat) : List (Cand S) :=
  if filtered filter (metadata.getD row.2 []) then top
  else (Selection.offer top_k top { score := score q row.1, idx := row.2 }).1

/-- Without a result where `chunks_exact` panics. -/
def scan_loaded (score : List F → List F → S) (l : Loaded F) (q : List F) (top_k : Nat)
    (filter : Option Meta) : Option (List (String × S)) :=
  if l.dim = 0 then none
  else
    let top := (chunks l.dim l.data).zipIdx.foldl (scanChunk score l.metadata q top_k filter) []
    some (top.map fun c => (l.ids.getD c.idx "", c.score))

/-- One row of a page. -/
def scanRow (serde : Serde) (score : List F → List F → S) (q : List F) (top_k : Nat)
    (filter : Option Meta) (s : List (Cand S) × Table Nat String) (r : Nat × Row F) :
    List (Cand S) × Table Nat String :=
  if filtered filter (parse_meta serde r.2.metadata) then s
  else if r.2.vector.length ≠ q.length then s
  else
    let offered := Selection.offer top_k s.1 { score := score q r.2.vector, idx := r.1 }
    (offered.1, if offered.2 then s.2.insert r.1 r.2.id else s.2)

def scan_sqlite (serde : Serde) (score : List F → List F → S) (db : Db F) (collection : String)
    (q : List F) (top_k : Nat) (filter : Option Meta) : Option (List (String × S)) :=
  (db.forPages collection (scanRow serde score q top_k filter) (db.vectors.size + 1) 0 ([], ∅)).map
    fun s => s.1.filterMap fun c => (s.2[c.idx]?).map fun id => (id, c.score)

/-! ## What a search is for -/

/-- The id and the score of a stored row that matches a search. -/
def hitOf (serde : Serde) (score : List F → List F → S) (q : List F) (filter : Option Meta) (r : Nat × Row F) :
    Option (String × S) :=
  if filtered filter (parse_meta serde r.2.metadata) ∨ r.2.vector.length ≠ q.length then none
  else some (r.2.id, score q r.2.vector)

def hits (serde : Serde) (score : List F → List F → S) (db : Db F) (collection : String) (q : List F)
    (filter : Option Meta) : List (String × S) :=
  (db.rowsOf collection).filterMap (hitOf serde score q filter)

/-- The `k` best of some ids with scores, all of them if there are fewer. -/
structure Best (k : Nat) (all out : List (String × S)) : Prop where
  length : out.length = min k all.length
  mem : ∀ a ∈ out, a ∈ all
  nodup : (out.map Prod.fst).Nodup
  descending : out.Pairwise fun a b => b.2 ≤ a.2
  best : ∀ a ∈ all, a ∉ out → ∀ b ∈ out, a.2 ≤ b.2

/-- A higher score, or the same one and an earlier place. -/
def Ahead (place : String → Nat) (a b : String × S) : Prop :=
  b.2 < a.2 ∨ a.2 = b.2 ∧ place a.1 < place b.1

instance (place : String → Nat) (a b : String × S) : Decidable (Ahead place a b) :=
  inferInstanceAs (Decidable (_ ∨ _))

def Loaded.placeOf (l : Loaded F) (id : String) : Nat :=
  (l.index[id]?).getD 0

def Db.rowidOf (db : Db F) (collection id : String) : Nat :=
  ((db.vectors.findKey Row.key (collection, id)).map Prod.fst).getD 0

/-- Of two rows with the same score, the first of which in the copy is ahead of all but fewer than `k`
    others there, the first in the copy has the smaller row number too. -/
def TiesInOrder (l : Loaded F) (db : Db F) (collection : String) (all : List (String × S)) (k : Nat) : Prop :=
  ∀ a ∈ all, ∀ b ∈ all, a.2 = b.2 → l.placeOf a.1 < l.placeOf b.1 →
    all.countP (fun c => Ahead l.placeOf c a) < k →
    db.rowidOf collection a.1 < db.rowidOf collection b.1

end

/-! ## A collection and its copy -/

section

variable {F : Type}

/-- A file, and the copy of one of its collections. -/
structure Kept (F : Type) where
  db : Db F
  copy : Option (Loaded F)

inductive Op (F : Type)
  | upsert (collection : String) (dim : Nat) (model : Option String) (rows : List (UpsertRow F))
  | delete (collection id : String)
  | load
  | unload

/-- What an operation does, if no other one is under way. -/
def Kept.apply (serde : Serde) (collection : String) (s : Kept F) : Op F → Kept F
  | .upsert name dim model rows =>
    match s.db.upsert name dim model rows with
    | .error _ => s
    | .ok db =>
      { db, copy := if name = collection then s.copy.map fun l => l.pushRows serde rows else s.copy }
  | .delete name id =>
    { db := (s.db.delete name id).1
      copy := if name = collection then s.copy.map fun l => (l.remove id).1 else s.copy }
  | .load => { s with copy := (s.db.collection_dim collection).bind (s.db.load serde collection) }
  | .unload => { s with copy := none }

/-- The vectors of written rows have the dimension that the handler checked. -/
def Op.Checked : Op F → Prop
  | .upsert _ dim _ rows => ∀ r ∈ rows, r.vector.length = dim
  | _ => True

def Kept.run (serde : Serde) (collection : String) (ops : List (Op F)) : Kept F :=
  ops.foldl (Kept.apply serde collection) { db := .empty, copy := none }

end

end VectorDb

/-!
## The listed collections

The action `vec_list` (`handler.rs`). The prefix of a request becomes a pattern as it stands.
-/

namespace VectorDb

open Like

variable {F : Type}

/-- `select name from collections … order by name` -/
def Db.collection_names (db : Db F) (pre : String) : List String :=
  let rows :=
    if pre.isEmpty then db.collections.toList
    else Table.selectWhere db.collections fun name _ => like '\\' name.toList (pre.toList ++ ['%'])
  rows.map Prod.fst

def Db.vec_list (db : Db F) (pre : String) : Json :=
  .obj [("collections", .arr ((db.collection_names pre).map .str))]

/-! ## The pattern -/

/-- A name begins with a text that the prefix is a pattern of. A backslash at the end of the prefix
    stands, with the `%` after it, for a percent sign at the end of the name. -/
def Describes (pre name : List Char) : Prop :=
  (∃ kept, kept <+: name ∧ like '\\' kept pre = true) ∨
    ∃ p n, pre = p ++ ['\\'] ∧ name = n ++ ['%'] ∧ like '\\' n p = true

end VectorDb
