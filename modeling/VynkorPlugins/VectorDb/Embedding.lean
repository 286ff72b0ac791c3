import VynkorPlugins.Base.Pieces
import VynkorPlugins.Base.Rust
import VynkorPlugins.VectorDb.Requests

/-!
# Embedding by `ai`

How texts are embedded over the `ai` plugin (`embed_many`), chunk by chunk and, if `ai` rejects arrays, one
text after the other; and the requests on one file with such a way to `ai`.
-/

namespace VectorDb

open Async

/-- What is sent as `input`. -/
inductive Input
  | one (text : String)
  | many (texts : List String)

/-- The fields of a reply that are read, each with an error where it is malformed. -/
structure Reply (F : Type) where
  embedding : Option (Except String (List F))
  embeddings : Option (Except String (List (List F)))

abbrev Ai (F : Type) := Input → Except String (Reply F)

section

variable {F : Type} (ai : Ai F)

def embed_single (text : String) : Except String (List F) :=
  match ai (.one text) with
  | .error e => .error e
  | .ok v =>
    match v.embedding with
    | none => .error "ai embedding missing field embedding"
    | some (.error e) => .error ("ai embedding malformed embedding: " ++ e)
    | some (.ok vector) => .ok vector

def embed_array (texts : List String) : Except String (List (List F)) :=
  match ai (.many texts) with
  | .error e => .error e
  | .ok v =>
    match v.embeddings with
    | none => .error "ai embedding missing field embeddings"
    | some (.error e) => .error ("ai embedding malformed embeddings: " ++ e)
    | some (.ok out) =>
      if out.length ≠ texts.length then
        .error ("ai embedding returned " ++ toString out.length ++ " vectors for " ++
          toString texts.length ++ " inputs")
      else .ok out

/-- Errors that mean "this `ai` does not understand an array input". -/
def looks_like_array_unsupported (err : String) : Bool :=
  let e := err.toLower
  Rust.contains e "invalid type: sequence" || Rust.contains e "expected a string" ||
    Rust.contains e "missing field embeddings"

/-- One chunk, and whether `ai` is known to reject arrays then. -/
def embed_chunk (chunk : List String) (array_unsupported : Bool) :
    Except String (List (List F)) × Bool :=
  if 1 < chunk.length ∧ array_unsupported = false then
    match embed_array ai chunk with
    | .ok v => (.ok v, array_unsupported)
    | .error e =>
      if looks_like_array_unsupported e then (chunk.mapM (embed_single ai), true)
      else (.error e, array_unsupported)
  else (chunk.mapM (embed_single ai), array_unsupported)

def embed_chunks : List (List String) → Bool → Except String (List (List F)) × Bool
  | [], array_unsupported => (.ok [], array_unsupported)
  | chunk :: chunks, array_unsupported =>
    match embed_chunk ai chunk array_unsupported with
    | (.error e, array_unsupported) => (.error e, array_unsupported)
    | (.ok vectors, array_unsupported) =>
      match embed_chunks chunks array_unsupported with
      | (.error e, array_unsupported) => (.error e, array_unsupported)
      | (.ok out, array_unsupported) => (.ok (vectors ++ out), array_unsupported)

/-- `texts.chunks(size)` -/
def text_chunks (size : Nat) (texts : List String) : List (List String) :=
  let (whole, rest) := Pieces.cut size texts
  if rest = [] then whole else whole ++ [rest]

/-- `batch` is the number of texts in one request. -/
def embed_many (E : Embedder F) (batch : Nat) (texts : List String) (array_unsupported : Bool) :
    Except String (List (List F)) × Bool :=
  match embed_chunks ai (text_chunks (max batch 1) texts) array_unsupported with
  | (.error e, array_unsupported) => (.error e, array_unsupported)
  | (.ok out, array_unsupported) =>
    match out.mapM E.normalize with
    | none => (.error "ai embedding zero norm", array_unsupported)
    | some out => (.ok out, array_unsupported)

/-- An array is embedded as each of its texts is, or rejected. -/
def Pointwise : Prop :=
  ∀ texts : List String, 1 < texts.length →
    match embed_array ai texts with
    | .ok out => texts.mapM (embed_single ai) = .ok out
    | .error e => looks_like_array_unsupported e = true ∨ ∃ t ∈ texts, ∃ e, embed_single ai t = .error e

/-- The normalized vector of a text, if `ai` has one. -/
def embed_one (E : Embedder F) (text : String) : Option (List F) :=
  (embed_single ai text).toOption.bind E.normalize

end

/-! ## Requests on a file -/

/-- The file, and what is known of `ai`. -/
structure Site (F : Type) where
  world : World F
  array_unsupported : Bool

/-- How the requests reach `ai`. -/
structure Way (F : Type) where
  ai : Ai F
  batch : Nat

section

variable {F S : Type} (E : Embedder F) (way : Way F)

/-- What a request is answered if `faults` are the calls to the file that fail. -/
def Site.serve (faults : Eff F → Option String) : (e : Eff F) → Site F → e.Answer S × Site F
  | .embed_many texts, s =>
    let (r, array_unsupported) := embed_many way.ai E way.batch texts s.array_unsupported
    (r, { s with array_unsupported })
  | e, s =>
    let (r, world) := World.serve 0 e ((faults e).elim .ok .refused) s.world
    (r, { s with world })

/-- The request of one document of a batch. -/
def BatchDoc.single (collection : String) (doc : BatchDoc F) : UpsertRequest F where
  collection := collection
  id := doc.id
  text := doc.text
  vector := doc.vector
  metadata := doc.metadata

/-- The documents one after the other, until one is refused. -/
def upsert_each (c : Config) (collection : String) : List (BatchDoc F) → Site F → Except String (Site F)
  | [], s => .ok s
  | doc :: docs, s =>
    match run (Site.serve (S := S) E way fun _ => none) (upsert E c (doc.single collection)) s with
    | (.error e, _) => .error e
    | (.ok _, s) => upsert_each c collection docs s

/-- The texts of some documents that are embedded. -/
def texts_of (docs : List (BatchDoc F)) : List String :=
  (docs.filter fun doc => doc.vector.isNone).map fun doc => doc.text.getD ""

/-- Where the fake embedder may step in, `ai` embeds all of the texts or none. -/
def AllOrNone (ai : Ai F) (c : Config) (texts : List String) : Prop :=
  ∀ cfg, c.embed_cfg = some cfg → cfg.fallback = .Fake →
    (∀ t ∈ texts, (embed_one ai E t).isSome) ∨ ∀ t ∈ texts, embed_one ai E t = none

end

end VectorDb
