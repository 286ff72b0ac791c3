import VynkorPlugins.Base.Async
import VynkorPlugins.VectorDb.Loaded

/-!
# Requests

The requests of the `vector-db` plugin that write and search vectors (`handle_inner`), once they are
parsed. They await the file of their caller, the `ai` plugin and the cache.
-/

namespace VectorDb

open Async

/-! ## Embedding -/

inductive EmbedFallback
  | Fake
  | Error
deriving DecidableEq

structure EmbedConfig where
  enabled : Bool
  model : String
  fallback : EmbedFallback

/-- What `embed.rs` computes on floating point numbers. -/
structure Embedder (F : Type) where
  is_finite : F → Bool
  display : F → String
  /-- Without a result for a vector of zero norm. -/
  normalize : List F → Option (List F)
  fake_embed : String → Nat → List F
  normalize_length : ∀ v v', normalize v = some v' → v'.length = v.length
  fake_embed_length : ∀ text dim, (fake_embed text dim).length = dim

structure Embedded (F : Type) where
  vectors : List (List F)
  /-- Whether the fake embedder made them. -/
  fake : Bool

/-- `cfg` is passed along with every request, and `rpc` where there is a way to `ai`. -/
structure Config where
  rpc : Bool
  cfg : Option EmbedConfig
  default_dim : Nat

/-- The configuration under which texts are embedded by `ai`. -/
def Config.embed_cfg (c : Config) : Option EmbedConfig :=
  c.cfg.filter fun cfg => c.rpc && cfg.enabled

section

variable {F : Type} (E : Embedder F)

/-- The first entry that is not finite. -/
def not_finite (v : List F) : Option Nat :=
  v.findIdx? fun x => !E.is_finite x

def validate_and_normalize_vector (v : List F) (expected_dim : Option Nat) : Except String (List F) :=
  if v = [] then .error "vector must be non-empty"
  else if v.length > 4096 then .error ("vector dim too large: " ++ toString v.length ++ " > 4096")
  else
    match expected_dim.filter fun dim => v.length ≠ dim with
    | some dim => .error ("dimension mismatch: expected " ++ toString dim ++ ", got " ++ toString v.length)
    | none =>
      match not_finite E v, E.normalize v with
      | some i, _ =>
        .error ("vector[" ++ toString i ++ "] is not finite: " ++ ((v[i]?).map E.display).getD "")
      | none, none => .error "vector has zero norm (cannot normalize)"
      | none, some v' => .ok v'

end

/-! ## What a request awaits -/

/-- The dimension and the model of a collection. -/
abbrev CollectionInfo := Option (Nat × String)

/-- A row that is written comes with whether the fake embedder made its vector, and so does the vector
    of a query. -/
inductive Eff (F : Type)
  | collection_info (collection : String)
  | model_guard (collection : String) (info : CollectionInfo) (model : String)
  | embed_many (texts : List String)
  | upsert (collection : String) (dim : Nat) (model : Option String) (rows : List (UpsertRow F × Bool))
  | query (collection : String) (q : List F) (fake : Bool) (top_k : Nat) (filter : Option Meta)

@[reducible] def Eff.Answer {F : Type} (S : Type) : Eff F → Type
  | .collection_info _ => Except String CollectionInfo
  | .model_guard .. => Except String Unit
  | .embed_many _ => Except String (List (List F))
  | .upsert .. => Except String Nat
  | .query .. => Except String (List (String × S))

abbrev Act (F S α : Type) := Async (Eff F) (Eff.Answer S) α

section

variable {F S : Type}

def await (e : Eff F) : Act F S (e.Answer S) := Async.perform e

/-- The guard is only asked where texts are embedded by `ai`. -/
def model_guard (c : Config) (collection : String) (info : CollectionInfo) : Act F S (Except String Unit) :=
  match c.embed_cfg with
  | none => return .ok ()
  | some cfg => await (.model_guard collection info cfg.model)

def fake_embedded (E : Embedder F) (c : Config) (texts : List String) (dim_hint : Option Nat) : Embedded F where
  vectors := texts.map fun t => E.fake_embed t (dim_hint.getD c.default_dim)
  fake := true

/-- A configuration that wants real vectors only. -/
def Config.refuses_fake (c : Config) : Bool :=
  c.cfg.any fun cfg => cfg.enabled && cfg.fallback = .Error

/-- A vector that has not the dimension it should have, and the dimension. -/
def dim_mismatch (dim_hint : Option Nat) (vectors : List (List F)) : Option (Nat × List F) :=
  dim_hint.bind fun d => (vectors.find? fun v => v.length ≠ d).map fun bad => (d, bad)

def embed_texts (E : Embedder F) (c : Config) (texts : List String) (dim_hint : Option Nat) :
    Act F S (Except String (Embedded F)) := do
  match c.embed_cfg with
  | some cfg =>
    match ← await (.embed_many texts) with
    | .ok vectors =>
      match dim_mismatch dim_hint vectors with
      | some (d, bad) =>
        return .error ("ai embedding dim mismatch: expected " ++ toString d ++ ", got " ++
          toString bad.length)
      | none => return .ok { vectors, fake := false }
    | .error e =>
      if cfg.fallback = .Error then return .error ("ai embedding failed: " ++ e)
      else return .ok (fake_embedded E c texts dim_hint)
  | none =>
    if c.refuses_fake then
      return .error
        "ai embedding unavailable (no Rpc or ai failure) and fallback=error — refusing fake"
    else return .ok (fake_embedded E c texts dim_hint)

/-- Fake vectors must never be mixed into a collection that holds real-model vectors. -/
def refuse_fake_for_real_collection (collection : String) (info : CollectionInfo) (fake : Bool) :
    Except String Unit :=
  match info with
  | none => .ok ()
  | some (_, model) =>
    if fake = true ∧ model ≠ "" then
      .error ("ai embedding unavailable; refusing fake vectors for collection " ++ collection ++
        " (model " ++ model ++ ")")
    else .ok ()

/-- The texts of a request, embedded for a collection, and the model that embedded them. -/
def embed_for (E : Embedder F) (c : Config) (collection : String) (info : CollectionInfo)
    (texts : List String) : Act F S (Except String (Embedded F × Option String)) := do
  match ← embed_texts E c texts (info.map Prod.fst) with
  | .error e => return .error e
  | .ok emb =>
    match refuse_fake_for_real_collection collection info emb.fake with
    | .error e => return .error e
    | .ok () => return .ok (emb, if emb.fake then none else c.cfg.map EmbedConfig.model)

/-! ## Requests -/

structure UpsertRequest (F : Type) where
  collection : String
  id : String
  text : Option String
  vector : Option (List F)
  metadata : Option Json

structure BatchDoc (F : Type) where
  id : String
  text : Option String
  vector : Option (List F)
  metadata : Option Json

structure BatchRequest (F : Type) where
  collection : String
  docs : List (BatchDoc F)

structure QueryRequest (F : Type) where
  collection : String
  text : Option String
  vector : Option (List F)
  top_k : Nat
  filter : Option Json

def metadata_json (metadata : Option Json) : String :=
  (metadata.map Json.print).getD "\x7b\x7d"

/-- What a request reads of its collection first. -/
def begin_on (c : Config) (collection : String) : Act F S (Except String CollectionInfo) := do
  match ← await (.collection_info collection) with
  | .error e => return .error e
  | .ok info =>
    match ← model_guard c collection info with
    | .error e => return .error e
    | .ok () => return .ok info

/-- The vector of a single row, whether it is fake, and the model that made it. -/
def vector_for (E : Embedder F) (c : Config) (collection : String) (info : CollectionInfo)
    (text : Option String) (vector : Option (List F)) :
    Act F S (Except String (List F × Bool × Option String)) := do
  match vector with
  | some v =>
    match validate_and_normalize_vector E v (info.map Prod.fst) with
    | .error e => return .error e
    | .ok v => return .ok (v, false, none)
  | none =>
    match ← embed_for E c collection info [text.getD ""] with
    | .error e => return .error e
    | .ok (emb, model) => return .ok (emb.vectors.headD [], emb.fake, model)

def upsert (E : Embedder F) (c : Config) (r : UpsertRequest F) : Act F S (Except String Nat) := do
  match ← begin_on c r.collection with
  | .error e => return .error e
  | .ok info =>
    match ← vector_for E c r.collection info r.text r.vector with
    | .error e => return .error e
    | .ok (vec, fake, model) =>
      match info.filter fun i => vec.length ≠ i.1 with
      | some (existing_dim, _) =>
        return .error ("dimension mismatch: collection '" ++ r.collection ++ "' dim " ++
          toString existing_dim ++ ", got " ++ toString vec.length)
      | none =>
        let row : UpsertRow F :=
          { id := r.id, text := r.text.getD "", vector := vec, metadata_json := metadata_json r.metadata }
        await (.upsert r.collection vec.length model [(row, fake)])

/-- The rows of a batch: the first one defines the dimension of a new collection. -/
def batch_rows (E : Embedder F) (collection : String) (fake : Bool) :
    Nat → List (BatchDoc F) → Option Nat → List (List F) →
      Except String (Option Nat × List (UpsertRow F × Bool))
  | _, [], dim, _ => .ok (dim, [])
  | n, doc :: docs, dim, embedded =>
    let vec :=
      match doc.vector, embedded with
      | some v, _ => (validate_and_normalize_vector E v dim).map fun v => (v, embedded)
      | none, v :: embedded => .ok (v, embedded)
      | none, [] => .error "embedding count mismatch"
    match vec with
    | .error e => .error e
    | .ok (vec, embedded) =>
      match dim.filter fun expected => vec.length ≠ expected with
      | some expected =>
        .error ("docs[" ++ toString n ++ "] dimension mismatch: collection '" ++ collection ++ "' dim " ++
          toString expected ++ ", got " ++ toString vec.length)
      | none =>
        let row : UpsertRow F :=
          { id := doc.id, text := doc.text.getD "", vector := vec
            metadata_json := metadata_json doc.metadata }
        match batch_rows E collection fake (n + 1) docs (some vec.length) embedded with
        | .error e => .error e
        | .ok (dim, rows) => .ok (dim, (row, doc.vector.isNone && fake) :: rows)

/-- Every document without a vector is embedded in one pass. -/
def batch_embed (E : Embedder F) (c : Config) (r : BatchRequest F) (info : CollectionInfo) :
    Act F S (Except String (Embedded F × Option String)) :=
  let texts := (r.docs.filter fun doc => doc.vector.isNone).map fun doc => doc.text.getD ""
  if texts = [] then return .ok ({ vectors := [], fake := false }, none)
  else embed_for E c r.collection info texts

def batch_upsert (E : Embedder F) (c : Config) (r : BatchRequest F) : Act F S (Except String Nat) := do
  match ← begin_on c r.collection with
  | .error e => return .error e
  | .ok info =>
    match ← batch_embed E c r info with
    | .error e => return .error e
    | .ok (emb, model) =>
      match batch_rows E r.collection emb.fake 0 r.docs (info.map Prod.fst) emb.vectors with
      | .error e => return .error e
      | .ok (dim, rows) => await (.upsert r.collection (dim.getD c.default_dim) model rows)

/-- A filter that is no object, or an empty one, lets everything pass. -/
def filter_map (filter : Option Json) : Option Meta :=
  match filter with
  | some (.obj (f :: fs)) => some (f :: fs)
  | _ => none

def query (E : Embedder F) (c : Config) (r : QueryRequest F) :
    Act F S (Except String (List (String × S))) := do
  match ← await (.collection_info r.collection) with
  | .error e => return .error e
  | .ok none => return .ok []
  | .ok (some info) =>
    match ← model_guard c r.collection (some info) with
    | .error e => return .error e
    | .ok () =>
      match ← vector_for E c r.collection (some info) r.text r.vector with
      | .error e => return .error e
      | .ok (q, fake, _) => await (.query r.collection q fake r.top_k (filter_map r.filter))

end

end VectorDb
