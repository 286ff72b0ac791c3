import VynkorPlugins.Base.Keyed
import VynkorPlugins.Base.Pointer
import VynkorPlugins.Base.Serde
import VynkorPlugins.Base.Table

/-!
# Collections in memory

The copy of a collection that the cache of the `vector-db` plugin keeps: all vectors in one array, and
the rest of the rows beside it (`Loaded` of `cache.rs`).
-/

namespace VectorDb

/-- The fields of the metadata of a row. -/
abbrev Meta := List (String × Json)

/-- Metadata that is no object counts as empty. -/
def parse_meta (serde : Serde) (json : String) : Meta :=
  match serde.fromStr json with
  | .ok (.obj fs) => fs
  | _ => []

def matches_filter (metadata : Meta) (filter : Meta) : Bool :=
  filter.all fun f => ((Json.obj metadata).get f.1).any fun v => v.same f.2

/-- One row to write. -/
structure UpsertRow (F : Type) where
  id : String
  text : String
  vector : List F
  metadata_json : String

structure Loaded (F : Type) where
  dim : Nat
  ids : List String
  data : List F
  metadata : List Meta
  /-- The length of the metadata of each row, as counted when it was added. -/
  meta_lens : List Nat
  index : Table String Nat
  /-- The sum of what the rows take beside their vectors. -/
  overhead : Nat

def row_overhead (id_len meta_len : Nat) : Nat :=
  id_len + 2 * meta_len + 112

namespace Loaded

variable {F : Type}

def new (dim : Nat) : Loaded F where
  dim
  ids := []
  data := []
  metadata := []
  meta_lens := []
  index := ∅
  overhead := 0

def bytes (l : Loaded F) : Nat :=
  l.data.length * 4 + l.overhead

/-- `row_overhead` of the row at a place. -/
def overheadAt (l : Loaded F) (i : Nat) : Nat :=
  row_overhead (l.ids.getD i "").utf8ByteSize (l.meta_lens.getD i 0)

/-- `data[i * dim..(i + 1) * dim].copy_from_slice`. -/
def copyRow (dim i : Nat) (vector data : List F) : List F :=
  data.take (i * dim) ++ vector ++ data.drop ((i + 1) * dim)

def push (serde : Serde) (l : Loaded F) (id : String) (vector : List F) (meta_json : String) :
    Loaded F :=
  let metadata := parse_meta serde meta_json
  let meta_len := meta_json.utf8ByteSize
  match l.index[id]? with
  | some i =>
    { l with
      data := copyRow l.dim i vector l.data
      overhead := l.overhead - l.overheadAt i + row_overhead id.utf8ByteSize meta_len
      metadata := l.metadata.set i metadata
      meta_lens := l.meta_lens.set i meta_len }
  | none =>
    { l with
      index := l.index.insert id l.ids.length
      overhead := l.overhead + row_overhead id.utf8ByteSize meta_len
      ids := l.ids ++ [id]
      data := l.data ++ vector
      metadata := l.metadata ++ [metadata]
      meta_lens := l.meta_lens ++ [meta_len] }

/-- `swap(i, j)`. -/
def swap {α : Type} (l : List α) (i j : Nat) : List α :=
  match l[i]?, l[j]? with
  | some a, some b => (l.set i b).set j a
  | _, _ => l

def pushRows (serde : Serde) (l : Loaded F) (rows : List (UpsertRow F)) : Loaded F :=
  rows.foldl (fun l r => l.push serde r.id r.vector r.metadata_json) l

/-- The last row takes the place of the removed one. -/
def remove (l : Loaded F) (id : String) : Loaded F × Bool :=
  match l.index[id]? with
  | none => (l, false)
  | some i =>
    let last := l.ids.length - 1
    let l' := { l with index := l.index.erase id, overhead := l.overhead - l.overheadAt i }
    let l' :=
      if i ≠ last then
        let ids := swap l'.ids i last
        { l' with
          data := copyRow l'.dim i ((l'.data.drop (last * l'.dim)).take l'.dim) l'.data
          ids
          metadata := swap l'.metadata i last
          meta_lens := swap l'.meta_lens i last
          index := l'.index.insert (ids.getD i "") i }
      else l'
    ({ l' with
      ids := l'.ids.dropLast
      metadata := l'.metadata.dropLast
      meta_lens := l'.meta_lens.dropLast
      data := l'.data.take (last * l'.dim) }, true)

end Loaded

end VectorDb

/-!
## The file of a caller

The tables of one `.db` file of the `vector-db` plugin and the transactions over them (`migrate.rs` and
the SQL of `cache.rs`). A stored vector is the list that its BLOB decodes to.
-/

namespace VectorDb

structure Collection where
  dim : Nat
  /-- The model that embedded its texts, empty as long as none has. -/
  model : String

/-- A row of `vectors`. -/
structure Row (F : Type) where
  collection : String
  id : String
  text : String
  vector : List F
  metadata : String

/-- A row of `vectors_reembed`. -/
structure Shadow (F : Type) where
  collection : String
  id : String
  text : String
  vector : List F

/-- The primary key. -/
def Row.key {F : Type} (r : Row F) : String × String :=
  (r.collection, r.id)

def Shadow.key {F : Type} (s : Shadow F) : String × String :=
  (s.collection, s.id)

structure Db (F : Type) where
  collections : Table String Collection
  vectors : Table Nat (Row F)
  vectors_reembed : Table Nat (Shadow F)

def PAGE_ROWS : Nat := 2048

namespace Db

variable {F : Type}

def empty : Db F where
  collections := ∅
  vectors := ∅
  vectors_reembed := ∅

/-- Rows have numbers from one on and no two have the same key. -/
structure WellFormed (db : Db F) : Prop where
  unique : db.vectors.Unique Row.key
  pos : ∀ (n : Nat) (r : Row F), db.vectors[n]? = some r → 0 < n

def collection_dim (db : Db F) (collection : String) : Option Nat :=
  (db.collections[collection]?).map Collection.dim

/-- The model of a collection, empty if there is none. -/
def model (db : Db F) (collection : String) : String :=
  ((db.collections[collection]?).map Collection.model).getD ""

/-- The rows of a collection, in the order of their numbers. -/
def rowsOf (db : Db F) (collection : String) : List (Nat × Row F) :=
  db.vectors.selectWhere fun _ r => r.collection = collection

/-- `where rowid > ?2 order by rowid limit PAGE_ROWS`. -/
def page (db : Db F) (collection : String) (last : Nat) : List (Nat × Row F) :=
  ((db.rowsOf collection).filter fun r => last < r.1).take PAGE_ROWS

/-- A loop over the pages of a collection, until one is empty. -/
def forPages {σ : Type} (db : Db F) (collection : String) (body : σ → Nat × Row F → σ) :
    Nat → Nat → σ → Option σ
  | 0, _, _ => none
  | fuel + 1, last, s =>
    match (db.page collection last).getLast? with
    | none => some s
    | some row => forPages db collection body fuel row.1 ((db.page collection last).foldl body s)

/-- What the SQL of `estimate` adds up counts characters. -/
def estimate (db : Db F) (collection : String) (dim : Nat) : Nat :=
  (db.rowsOf collection).length * dim * 4 +
    ((db.rowsOf collection).map fun r => r.2.id.length + 2 * r.2.metadata.length + 112).sum

/-- What a loaded page adds to a copy: the rows whose vectors have its dimension. -/
def loadRow (serde : Serde) (l : Loaded F) (r : Nat × Row F) : Loaded F :=
  if r.2.vector.length = l.dim then l.push serde r.2.id r.2.vector r.2.metadata else l

def load (serde : Serde) (db : Db F) (collection : String) (dim : Nat) : Option (Loaded F) :=
  db.forPages collection (loadRow serde) (db.vectors.size + 1) 0 (.new dim)

/-- `insert or ignore into collections`. -/
def createCollection (db : Db F) (collection : String) (dim : Nat) : Db F :=
  match db.collections[collection]? with
  | some _ => db
  | none => { db with collections := db.collections.insert collection { dim, model := "" } }

/-- `update collections set model = ?2 where name = ?1 and model = ''`. -/
def stamp (db : Db F) (collection : String) (model : Option String) : Db F :=
  match model.filter fun m => m ≠ "" with
  | some m =>
    { db with collections := db.collections.modify collection fun c =>
        if c.model = "" then { c with model := m } else c }
  | none => db

def putRow (collection : String) (db : Db F) (r : UpsertRow F) : Db F :=
  let row : Row F :=
    { collection, id := r.id, text := r.text, vector := r.vector, metadata := r.metadata_json }
  { db with vectors := db.vectors.upsert Row.key row }

/-- The transaction of `upsert_inner`. -/
def upsert (db : Db F) (collection : String) (dim : Nat) (model : Option String)
    (rows : List (UpsertRow F)) : Except String (Db F) :=
  let tx := db.createCollection collection dim
  match tx.collection_dim collection with
  | none => .error "no rows returned by a query that expected to return at least one row"
  | some existing =>
    if existing ≠ dim then
      .error s!"dimension mismatch: collection '{collection}' dim {existing}, got {dim}"
    else .ok (rows.foldl (putRow collection) (tx.stamp collection model))

/-- The statement of `delete_inner`, and whether it deleted a row. -/
def delete (db : Db F) (collection id : String) : Db F × Bool :=
  ({ db with vectors := db.vectors.deleteWhere fun _ r => r.collection = collection ∧ r.id = id },
    (db.vectors.selectWhere fun _ r => r.collection = collection ∧ r.id = id).length > 0)

end Db

end VectorDb
