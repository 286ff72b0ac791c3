import VynkorPlugins.VectorDb.Requests
import VynkorPlugins.VectorDb.Proofs.RowProofs

/-!
# Fake and real vectors

A request makes vectors with the fake embedder only for a collection that had no model when it read it.
A collection therefore stays unmixed as long as no model comes in between, and no model comes to a row
with such a vector.
-/

namespace VectorDb

open Async Transition

variable {F S : Type} {E : Embedder F} {c : Config} {name : String} {info : CollectionInfo}

/-! ## What a request does -/

/-- The model that a collection was read with. -/
def model_of (info : CollectionInfo) : String :=
  (info.map Prod.snd).getD ""

/-- The collection of a request, and the model it has been read with. -/
structure Local where
  collection : String
  read : Option String

/-- With a vector of the fake embedder a request writes or searches only a collection that it has read
    without a model, and brings it none. All vectors it writes have the dimension it asks for. -/
def protocol : Protocol (Eff F) (Eff.Answer S) Local where
  allowed s
    | .upsert collection dim model rows =>
      (collection = s.collection ∧ (rows.any Prod.snd = true → s.read = some "" ∧ model = none)) ∧
        ∀ r ∈ rows, r.1.vector.length = dim
    | .query collection _ fake _ _ => collection = s.collection ∧ (fake = true → s.read = some "")
    | .collection_info collection => collection = s.collection
    | _ => True
  next s
    | .collection_info _, .ok info, s' => s' = { s with read := some (model_of info) }
    | _, _, s' => s' = s

/-- A request that has read its collection. -/
def Local.of (name : String) (info : CollectionInfo) : Local where
  collection := name
  read := some (model_of info)

theorem obeys_await {s : Local} {e : Eff F} (h : (@protocol F S).allowed s e) :
    Obeys protocol (fun s' r => protocol.next s e r s') s (await e : Act F S _) :=
  ⟨h, fun _ _ h => h⟩

theorem obeys_model_guard {Q : Local → Except String Unit → Prop} {s : Local} (h : ∀ r, Q s r) :
    Obeys protocol Q s (model_guard c name info : Act F S _) := by
  unfold model_guard
  cases c.embed_cfg with
  | none => exact h _
  | some cfg =>
    refine ⟨trivial, fun r s' hs => ?_⟩
    obtain rfl := hs
    exact h r

theorem obeys_begin_on : Obeys protocol (fun s r => ∀ info, r = .ok info → s = .of name info)
    { collection := name, read := none } (begin_on c name : Act F S _) := by
  refine Obeys.bind (obeys_await rfl) ?_
  intro s' r hs
  cases r with
  | error e => exact fun info h => nomatch h
  | ok info =>
    obtain rfl := hs
    refine Obeys.bind (obeys_model_guard (Q := fun s _ => s = .of name info) fun _ => rfl) ?_
    rintro s r rfl
    cases r with
    | error e => exact fun info h => nomatch h
    | ok u =>
      rintro info' h
      rw [Except.ok.inj h]

theorem obeys_embed_texts {texts : List String} {dim_hint : Option Nat} {s : Local} :
    Obeys protocol (fun s' _ => s' = s) s (embed_texts E c texts dim_hint : Act F S _) := by
  unfold embed_texts
  cases c.embed_cfg with
  | none =>
    dsimp only
    split_ifs
    · rfl
    · rfl
  | some cfg =>
    refine Obeys.bind (obeys_await trivial) ?_
    rintro s' r hs
    obtain rfl := hs
    cases r with
    | error e =>
      dsimp only
      split_ifs
      · rfl
      · rfl
    | ok vectors =>
      dsimp only
      split
      · rfl
      · rfl

/-- Vectors of the fake embedder are refused for a collection with a model, and name no model. -/
theorem obeys_embed_for {texts : List String} {s : Local} :
    Obeys protocol (fun s' r => s' = s ∧ ∀ emb model, r = .ok (emb, model) → emb.fake = true →
      model_of info = "" ∧ model = none) s (embed_for E c name info texts : Act F S _) := by
  refine Obeys.bind obeys_embed_texts ?_
  rintro s r rfl
  cases r with
  | error e => exact ⟨rfl, fun emb model h => nomatch h⟩
  | ok emb =>
    dsimp only
    cases hrefuse : refuse_fake_for_real_collection name info emb.fake with
    | error e => exact ⟨rfl, fun emb model h => nomatch h⟩
    | ok u =>
      refine ⟨rfl, fun emb' model h hfake => ?_⟩
      obtain ⟨rfl, rfl⟩ := Prod.mk.inj (Except.ok.inj h)
      refine ⟨?_, if_pos hfake⟩
      unfold refuse_fake_for_real_collection at hrefuse
      cases info with
      | none => rfl
      | some i =>
        dsimp only at hrefuse
        split_ifs at hrefuse with hboth
        exact not_not.mp fun hne => hboth ⟨hfake, hne⟩

theorem obeys_vector_for {text : Option String} {vector : Option (List F)} {s : Local} :
    Obeys protocol (fun s' r => s' = s ∧ ∀ v fake model, r = .ok (v, fake, model) → fake = true →
      model_of info = "" ∧ model = none) s (vector_for E c name info text vector : Act F S _) := by
  unfold vector_for
  cases vector with
  | some v =>
    dsimp only
    split
    · exact ⟨rfl, fun v fake model h => nomatch h⟩
    · refine ⟨rfl, fun v fake model h hfake => ?_⟩
      obtain ⟨-, h⟩ := Prod.mk.inj (Except.ok.inj h)
      obtain ⟨rfl, -⟩ := Prod.mk.inj h
      cases hfake
  | none =>
    refine Obeys.bind obeys_embed_for ?_
    rintro s' r ⟨rfl, hr⟩
    cases r with
    | error e => exact ⟨rfl, fun v fake model h => nomatch h⟩
    | ok emb =>
      refine ⟨rfl, fun v fake model h hfake => ?_⟩
      obtain ⟨-, h⟩ := Prod.mk.inj (Except.ok.inj h)
      obtain ⟨rfl, rfl⟩ := Prod.mk.inj h
      exact hr emb.1 emb.2 rfl hfake

theorem obeys_upsert {r : UpsertRequest F} (hname : r.collection = name) :
    Obeys protocol (fun _ _ => True) { collection := name, read := none }
      (upsert E c r : Act F S _) := by
  subst hname
  refine Obeys.bind obeys_begin_on ?_
  rintro s info h
  cases info with
  | error e => trivial
  | ok info =>
    obtain rfl := h info rfl
    refine Obeys.bind obeys_vector_for ?_
    rintro s r' ⟨rfl, hr⟩
    cases r' with
    | error e => trivial
    | ok made =>
      obtain ⟨vec, fake, model⟩ := made
      dsimp only
      split
      · trivial
      · refine ⟨⟨⟨rfl, fun hany => ?_⟩, fun row hrow => ?_⟩, fun _ _ _ => trivial⟩
        · have hfake : fake = true := by simpa using hany
          obtain ⟨hinfo, hmodel⟩ := hr vec fake model rfl hfake
          exact ⟨congrArg some hinfo, hmodel⟩
        · obtain rfl := List.mem_singleton.mp hrow
          rfl

/-- A row of a batch is fake only where the embedded ones are. -/
theorem batch_rows_fake {fake : Bool} {n : Nat} {docs : List (BatchDoc F)} {dim dim' : Option Nat}
    {embedded : List (List F)} {rows : List (UpsertRow F × Bool)}
    (h : batch_rows E name fake n docs dim embedded = .ok (dim', rows)) (hany : rows.any Prod.snd = true) :
    fake = true := by
  induction docs generalizing n dim dim' embedded rows with
  | nil =>
    obtain ⟨-, rfl⟩ := Prod.mk.inj (Except.ok.inj h)
    simp at hany
  | cons doc docs ih =>
    unfold batch_rows at h
    dsimp only at h
    split at h
    · cases h
    · split at h
      · cases h
      · split at h
        · cases h
        · rename_i hrest
          obtain ⟨-, rfl⟩ := Prod.mk.inj (Except.ok.inj h)
          rw [List.any_cons, Bool.or_eq_true, Bool.and_eq_true] at hany
          rcases hany with ⟨-, hfake⟩ | hany
          · exact hfake
          · exact ih hrest hany

/-- The rows of a batch have one dimension, which is the expected one. -/
theorem batch_rows_dim {fake : Bool} {n : Nat} {docs : List (BatchDoc F)} {dim dim' : Option Nat}
    {embedded : List (List F)} {rows : List (UpsertRow F × Bool)}
    (h : batch_rows E name fake n docs dim embedded = .ok (dim', rows)) :
    (∀ d ∈ dim, dim' = some d) ∧ ∀ r ∈ rows, dim' = some r.1.vector.length := by
  induction docs generalizing n dim dim' embedded rows with
  | nil =>
    obtain ⟨rfl, rfl⟩ := Prod.mk.inj (Except.ok.inj h)
    exact ⟨fun d hd => hd, nofun⟩
  | cons doc docs ih =>
    unfold batch_rows at h
    dsimp only at h
    split at h
    · cases h
    · rename_i vec left _
      split at h
      · cases h
      · rename_i hdim
        split at h
        · cases h
        · rename_i last rest hrest
          obtain ⟨rfl, rfl⟩ := Prod.mk.inj (Except.ok.inj h)
          obtain ⟨hlast, hrows⟩ := ih hrest
          have hfirst := hlast vec.length rfl
          constructor
          · rintro d rfl
            by_cases hd : vec.length = d
            · rw [hfirst, hd]
            · rw [Option.filter_some, if_pos (decide_eq_true hd)] at hdim
              cases hdim
          · rintro r hr
            rcases List.mem_cons.mp hr with rfl | hr
            · exact hfirst
            · exact hrows r hr

theorem obeys_batch_embed {r : BatchRequest F} {s : Local} :
    Obeys protocol (fun s' x => s' = s ∧ ∀ emb model, x = .ok (emb, model) → emb.fake = true →
      model_of info = "" ∧ model = none) s (batch_embed E c r info : Act F S _) := by
  unfold batch_embed
  dsimp only
  split_ifs
  · refine ⟨rfl, fun emb model h hfake => ?_⟩
    obtain ⟨rfl, -⟩ := Prod.mk.inj (Except.ok.inj h)
    cases hfake
  · exact obeys_embed_for

theorem obeys_batch_upsert {r : BatchRequest F} (hname : r.collection = name) :
    Obeys protocol (fun _ _ => True) { collection := name, read := none }
      (batch_upsert E c r : Act F S _) := by
  subst hname
  refine Obeys.bind obeys_begin_on ?_
  rintro s info h
  cases info with
  | error e => trivial
  | ok info =>
    obtain rfl := h info rfl
    refine Obeys.bind obeys_batch_embed ?_
    rintro s r' ⟨rfl, hr⟩
    cases r' with
    | error e => trivial
    | ok made =>
      obtain ⟨emb, model⟩ := made
      dsimp only
      split
      · trivial
      · rename_i hrows
        refine ⟨⟨⟨rfl, fun hany => ?_⟩, fun row hrow => ?_⟩, fun _ _ _ => trivial⟩
        · obtain ⟨hinfo, hmodel⟩ := hr emb model rfl (batch_rows_fake hrows hany)
          exact ⟨congrArg some hinfo, hmodel⟩
        · rw [(batch_rows_dim hrows).2 row hrow]
          rfl

theorem obeys_query {r : QueryRequest F} (hname : r.collection = name) :
    Obeys protocol (fun _ _ => True) { collection := name, read := none }
      (query E c r : Act F S _) := by
  subst hname
  refine Obeys.bind (obeys_await rfl) ?_
  intro s' x hs
  cases x with
  | error e => trivial
  | ok info =>
    obtain rfl := hs
    cases info with
    | none => trivial
    | some info =>
      refine Obeys.bind (obeys_model_guard (Q := fun s _ => s = .of r.collection (some info))
        fun _ => rfl) ?_
      rintro s x rfl
      cases x with
      | error e => trivial
      | ok u =>
        refine Obeys.bind obeys_vector_for ?_
        rintro s x ⟨rfl, hx⟩
        cases x with
        | error e => trivial
        | ok made =>
          obtain ⟨q, fake, model⟩ := made
          refine ⟨⟨rfl, fun hfake => ?_⟩, fun _ _ _ => trivial⟩
          exact congrArg some (hx q fake model rfl hfake).1

def Request.collection : Request F → String
  | .upsert r => r.collection
  | .batch r => r.collection
  | .query r => r.collection

theorem obeys_request (c : Config) (r : Request F) :
    Obeys protocol (fun _ _ => True) { collection := r.collection, read := none }
      (r.task E c : Act F S Unit) := by
  cases r with
  | upsert r => exact Obeys.bind (obeys_upsert rfl) fun _ _ _ => trivial
  | batch r => exact Obeys.bind (obeys_batch_upsert rfl) fun _ _ _ => trivial
  | query r => exact Obeys.bind (obeys_query rfl) fun _ _ _ => trivial

/-! ## What a write does -/

namespace Db

variable {db db' : Db F} {collection : String} {dim : Nat} {model : Option String}

theorem model_createCollection (name : String) :
    (db.createCollection collection dim).model name = db.model name := by
  unfold createCollection Db.model
  cases hc : db.collections[collection]? with
  | some col => rfl
  | none =>
    dsimp only
    rw [Table.getElem?_insert_ite]
    by_cases hname : collection = name
    · subst hname
      rw [if_pos rfl, hc]
      rfl
    · rw [if_neg hname]

theorem createCollection_has : ∃ col, (db.createCollection collection dim).collections[collection]? = some col := by
  unfold createCollection
  cases hc : db.collections[collection]? with
  | some col => exact ⟨col, hc⟩
  | none => exact ⟨_, by rw [Table.getElem?_insert_ite, if_pos rfl]⟩

theorem model_stamp {col : Collection} (hcol : db.collections[collection]? = some col) (name : String) :
    (db.stamp collection model).model name =
      if name = collection ∧ db.stamps collection model = true then model.getD "" else db.model name := by
  have hmodel : db.model collection = col.model := by
    unfold Db.model
    rw [hcol]
    rfl
  unfold Db.stamp Db.stamps
  rw [hmodel]
  cases model with
  | none => simp
  | some m =>
    by_cases hm : m = ""
    · subst hm
      rw [if_neg (by simp)]
      rfl
    · have hsome : (some m).filter (fun m => m ≠ "") = some m := by simp [hm]
      rw [hsome]
      dsimp only
      unfold Db.model
      dsimp only
      rw [Table.modify_eq_insert _ hcol, Table.getElem?_insert_ite]
      by_cases hname : collection = name
      · subst hname
        rw [if_pos rfl, hcol]
        by_cases hempty : col.model = ""
        · simp [hempty, hm]
        · simp [hempty]
      · rw [if_neg hname, if_neg]
        exact fun hand => hname hand.1.symm

theorem model_upsert {rows : List (UpsertRow F)} (h : db.upsert collection dim model rows = .ok db')
    (name : String) : db'.model name =
      if name = collection ∧ db.stamps collection model = true then model.getD "" else db.model name := by
  obtain ⟨-, rfl⟩ := upsert_ok h
  have hsame : (db.createCollection collection dim).stamps collection model = db.stamps collection model := by
    unfold Db.stamps
    rw [model_createCollection]
  obtain ⟨col, hcol⟩ := @createCollection_has F db collection dim
  unfold Db.model
  rw [foldl_putRow_collections]
  change Db.model _ name = _
  rw [model_stamp hcol, hsame, model_createCollection]
  rfl

/-- A row that is there after a write was written or was there before. -/
theorem mem_puts (h : db.WellFormed) {rows : List (UpsertRow F)} {row : Row F}
    (hrow : ∃ n, (n, row) ∈ (rows.foldl (putRow collection) db).rowsOf collection) :
    row.id ∈ rows.map UpsertRow.id ∨ ∃ n, (n, row) ∈ db.rowsOf collection := by
  induction rows generalizing db with
  | nil => exact .inr hrow
  | cons r rows ih =>
    rw [List.map_cons, List.mem_cons]
    rcases ih (h.putRow r) hrow with hmem | hold
    · exact .inl (.inr hmem)
    · rcases (mem_putRow h).mp hold with rfl | ⟨hold, -⟩
      · exact .inl (.inl rfl)
      · exact .inr hold

end Db

/-- Where no written row is fake, neither is a row that was written or was not fake before. -/
theorem foldl_fakes {rows : List (UpsertRow F × Bool)} (h : rows.any Prod.snd = false) {collection id : String}
    {fakes : String × String → Bool}
    (hid : id ∈ rows.map (fun r => r.1.id) ∨ fakes (collection, id) = false) :
    rows.foldl (fun fakes r => Function.update fakes (collection, r.1.id) r.2) fakes (collection, id) =
      false := by
  induction rows generalizing fakes with
  | nil => simpa using hid
  | cons r rows ih =>
    rw [List.any_cons, Bool.or_eq_false_iff] at h
    refine ih h.2 ?_
    dsimp only
    rw [List.map_cons, List.mem_cons] at hid
    by_cases heq : id = r.1.id
    · subst heq
      rw [Function.update_self]
      exact .inr h.1
    · have hne : (collection, id) ≠ (collection, r.1.id) := fun hpair => heq (congrArg Prod.snd hpair)
      rw [Function.update_of_ne hne]
      exact hid.imp (fun hor => hor.resolve_left heq) fun hold => hold

theorem foldl_fakes_of_ne {rows : List (UpsertRow F × Bool)} {collection : String} {key : String × String}
    (hne : key.1 ≠ collection) (fakes : String × String → Bool) :
    rows.foldl (fun fakes r => Function.update fakes (collection, r.1.id) r.2) fakes key = fakes key := by
  induction rows generalizing fakes with
  | nil => rfl
  | cons r rows ih =>
    rw [List.foldl_cons, ih, Function.update_of_ne]
    rintro rfl
    exact hne rfl

/-! ## The invariant -/

variable {w : World F}

/-- The file is unmixed, and the requests know what model they have read. -/
structure MixInv (g : Nat → Local) (w : World F) : Prop where
  db : w.db.WellFormed
  unmixed : w.Unmixed
  read : ∀ i m, (g i).read = some m → w.history.read_model i = m

theorem unmixed_write {collection : String} {dim : Nat} {model : Option String}
    {rows : List (UpsertRow F × Bool)} {db : Db F} (h : w.Unmixed) (hdb : w.db.WellFormed)
    (hok : w.db.upsert collection dim model (rows.map Prod.fst) = .ok db)
    (hfake : rows.any Prod.snd = true → w.db.model collection = "" ∧ model = none)
    (hstamp : w.db.stamps collection model = true → ∀ r ∈ w.db.rowsOf collection,
      r.2.id ∈ rows.map (fun row => row.1.id) ∨ w.history.fakes (collection, r.2.id) = false) :
    (w.write collection rows db).Unmixed := by
  intro name r hmodel hhas hname
  have hrow := Db.mem_rowsOf'.mpr ⟨hhas, hname⟩
  change db.model name ≠ "" at hmodel
  change ∃ n, (n, r) ∈ db.rowsOf name at hrow
  change rows.foldl _ w.history.fakes (name, r.id) = false
  rw [Db.model_upsert hok] at hmodel
  by_cases hcoll : collection = name
  · subst hcoll
    by_cases hany : rows.any Prod.snd = true
    · -- a batch with a fake row brings no model
      obtain ⟨hempty, rfl⟩ := hfake hany
      rw [if_neg, hempty] at hmodel
      · exact (hmodel rfl).elim
      · simp [Db.stamps]
    · refine foldl_fakes (Bool.eq_false_iff.mpr hany) ?_
      obtain ⟨-, rfl⟩ := Db.upsert_ok hok
      have hv : ((w.db.createCollection collection dim).stamp collection model).vectors = w.db.vectors := by
        rw [Db.stamp_vectors, Db.createCollection_vectors]
      rcases Db.mem_puts (hdb.congr hv) hrow with hmem | ⟨n, hn⟩
      · rw [List.map_map] at hmem
        exact .inl hmem
      · rw [Db.rowsOf_congr hv] at hn
        by_cases hst : w.db.stamps collection model = true
        · exact hstamp hst (n, r) hn
        · rw [if_neg fun hand => hst hand.2] at hmodel
          obtain ⟨hold, -⟩ := Db.mem_rowsOf'.mp ⟨n, hn⟩
          exact .inr (h collection r hmodel hold hname)
  · rw [if_neg fun hand => hcoll hand.1.symm] at hmodel
    rw [foldl_fakes_of_ne (Ne.symm hcoll)]
    rw [Db.rowsOf_upsert_of_ne hdb hok hcoll] at hrow
    exact h name r hmodel (Db.mem_rowsOf'.mp hrow).1 hname

theorem MixInv.update {g : Nat → Local} {w' : World F} {i : Nat} {s : Local} (h : MixInv g w)
    (hdb : w'.db.WellFormed) (hunmixed : w'.Unmixed)
    (hothers : ∀ j, j ≠ i → w'.history.read_model j = w.history.read_model j)
    (hread : ∀ m, s.read = some m → w'.history.read_model i = m) : MixInv (Function.update g i s) w' := by
  refine ⟨hdb, hunmixed, fun j m hm => ?_⟩
  rcases eq_or_ne j i with rfl | hne
  · rw [Function.update_self] at hm
    exact hread m hm
  · rw [Function.update_of_ne hne] at hm
    rw [hothers j hne]
    exact h.read j m hm

/-- A step that leaves the file and the history as they were. -/
theorem MixInv.same {g : Nat → Local} {w' : World F} {i : Nat} (h : MixInv g w) (hdb : w'.db = w.db)
    (hhistory : w'.history = w.history) : MixInv (Function.update g i (g i)) w' := by
  refine h.update ?_ ?_ (fun j _ => by rw [hhistory]) ?_
  · rw [hdb]
    exact h.db
  · unfold World.Unmixed
    rw [hdb, hhistory]
    exact h.unmixed
  · rw [hhistory]
    exact h.read i

theorem model_guard_same (w : World F) (collection : String) (info : CollectionInfo) (model : String) :
    (w.model_guard collection info model).2.db = w.db ∧
      (w.model_guard collection info model).2.history = w.history := by
  unfold World.model_guard
  dsimp only
  split_ifs
  · exact ⟨rfl, rfl⟩
  · exact ⟨rfl, rfl⟩
  · exact ⟨rfl, rfl⟩

/-! ## What a call comes to -/

theorem serve_collection_info (i : Nat) (collection : String) (outcome : Outcome F S) (w : World F) :
    (∃ e, World.serve i (.collection_info collection) outcome w = (.error e, w)) ∨
      World.serve i (.collection_info collection) outcome w =
        (.ok (w.db.collection_info collection), { w with history := { w.history with
          read_model := Function.update w.history.read_model i (w.db.model collection) } }) := by
  cases outcome with
  | refused e => exact .inl ⟨e, rfl⟩
  | ok => exact .inr rfl
  | embedded vectors => exact .inr rfl
  | found hits => exact .inr rfl

theorem serve_embed_many (i : Nat) (texts : List String) (outcome : Outcome F S) (w : World F) :
    ∃ r, World.serve i (.embed_many texts) outcome w = (r, w) := by
  cases outcome with
  | refused e => exact ⟨_, rfl⟩
  | ok => exact ⟨_, rfl⟩
  | embedded vectors => exact ⟨_, rfl⟩
  | found hits => exact ⟨_, rfl⟩

theorem serve_query (i : Nat) (collection : String) (q : List F) (fake : Bool) (top_k : Nat)
    (filter : Option Meta) (outcome : Outcome F S) (w : World F) :
    ∃ r, World.serve i (.query collection q fake top_k filter) outcome w = (r, w) := by
  cases outcome with
  | refused e => exact ⟨_, rfl⟩
  | ok => exact ⟨_, rfl⟩
  | embedded vectors => exact ⟨_, rfl⟩
  | found hits => exact ⟨_, rfl⟩

theorem serve_upsert (i : Nat) (collection : String) (dim : Nat) (model : Option String)
    (rows : List (UpsertRow F × Bool)) (outcome : Outcome F S) (w : World F) :
    (∃ e, World.serve i (.upsert collection dim model rows) outcome w = (.error e, w)) ∨
      ∃ db, w.db.upsert collection dim model (rows.map Prod.fst) = .ok db ∧
        World.serve i (.upsert collection dim model rows) outcome w =
          (.ok rows.length, w.write collection rows db) := by
  cases outcome with
  | refused e => exact .inl ⟨e, rfl⟩
  | _ =>
    unfold World.serve
    dsimp only
    cases w.db.upsert collection dim model (rows.map Prod.fst) with
    | error e => exact .inl ⟨e, rfl⟩
    | ok db => exact .inr ⟨db, rfl, rfl⟩

/-! ## Steps and runs -/

theorem model_of_collection_info (db : Db F) (collection : String) :
    model_of (db.collection_info collection) = db.model collection := by
  unfold model_of Db.collection_info Db.model
  cases db.collections[collection]? with
  | none => rfl
  | some col => rfl

theorem mixInv_act {g : Nat → Local} {i : Nat} {e : Eff F} {r : e.Answer S} {w' : World F}
    (h : MixInv g w) (hallowed : (@protocol F S).allowed (g i) e) (hw : Handle i w e r w')
    (hsteady : Steady w (.act i e r : RequestLabel F S)) :
    ∃ s, protocol.next (g i) e r s ∧ MixInv (Function.update g i s) w' := by
  obtain ⟨outcome, hserve⟩ := hw
  cases e with
  | collection_info collection =>
    rcases serve_collection_info i collection outcome w with ⟨e, heq⟩ | heq
    · obtain ⟨rfl, rfl⟩ := Prod.mk.inj (heq.symm.trans hserve)
      exact ⟨g i, rfl, h.same rfl rfl⟩
    · obtain ⟨rfl, rfl⟩ := Prod.mk.inj (heq.symm.trans hserve)
      refine ⟨_, rfl, h.update h.db h.unmixed (fun j hj => Function.update_of_ne hj _ _) ?_⟩
      rintro m hm
      obtain rfl := Option.some.inj hm
      rw [model_of_collection_info]
      exact Function.update_self _ _ _
  | model_guard collection info model =>
    obtain ⟨rfl, rfl⟩ := Prod.mk.inj hserve
    obtain ⟨hdb, hhistory⟩ := model_guard_same w collection info model
    exact ⟨g i, rfl, h.same hdb hhistory⟩
  | embed_many texts =>
    obtain ⟨r', heq⟩ := serve_embed_many i texts outcome w
    obtain ⟨-, rfl⟩ := Prod.mk.inj (heq.symm.trans hserve)
    exact ⟨g i, rfl, h.same rfl rfl⟩
  | upsert collection dim model rows =>
    refine ⟨g i, rfl, ?_⟩
    rcases serve_upsert i collection dim model rows outcome w with ⟨e, heq⟩ | ⟨db, hok, heq⟩
    · obtain ⟨-, rfl⟩ := Prod.mk.inj (heq.symm.trans hserve)
      exact h.same rfl rfl
    · obtain ⟨-, rfl⟩ := Prod.mk.inj (heq.symm.trans hserve)
      refine h.update (h.db.upsert hok) (unmixed_write h.unmixed h.db hok ?_ hsteady.2) (fun j _ => rfl)
        (h.read i)
      intro hany
      obtain ⟨hread, hmodel⟩ := hallowed.1.2 hany
      rw [hsteady.1 hany, h.read i "" hread]
      exact ⟨rfl, hmodel⟩
  | query collection q fake top_k filter =>
    obtain ⟨r', heq⟩ := serve_query i collection q fake top_k filter outcome w
    obtain ⟨-, rfl⟩ := Prod.mk.inj (heq.symm.trans hserve)
    exact ⟨g i, rfl, h.same rfl rfl⟩

theorem mixInv_env {g : Nat → Local} (h : MixInv g w) (l : EnvMove) : MixInv g (l.apply w) := by
  cases l with
  | tick now => exact ⟨h.db, h.unmixed, h.read⟩
  | restart => exact ⟨h.db, h.unmixed, h.read⟩

theorem mixInv_start (E : Embedder F) (spawn : Nat → Config × Request F) :
    MixInv (fun i => { collection := (spawn i).2.collection, read := none })
      (Requests.start E spawn : Requests F S).world := by
  refine ⟨⟨Table.unique_empty _, fun n r hr => ?_⟩, fun name r hmodel => ?_, fun i m hm => ?_⟩
  · simp [Requests.start, Db.empty] at hr
  · exact (hmodel (by simp [Requests.start, Db.empty, Db.model])).elim
  · cases hm

/-- Fake and real vectors do not mix: as long as no collection is stamped between the reading of its
    model and a write or a search with a vector of the fake embedder, nor while it keeps a row with one,
    no collection with a model ever has such a row or is searched with such a vector. -/
theorem vectors_never_mix {E : Embedder F} {spawn : Nat → Config × Request F}
    {trace : List (RequestLabel F S)} {p : Requests F S}
    (hrun : Run (Where (fun p l => Steady p.world l) RequestStep) (.start E spawn) trace p) :
    p.world.Unmixed ∧ ∀ l p', Where (fun p l => Steady p.world l) RequestStep p l p' →
      SearchUnmixed p.world l := by
  have hinv : PoolInv (@protocol F S) (fun _ _ _ => True)
      (fun g (_ : List (RequestLabel F S)) w => MixInv g w) trace p := by
    refine hrun.invariant ?_ fun trace p l p' hp hstep => ?_
    · exact ⟨_, mixInv_start E spawn, fun i => obeys_request (spawn i).1 (spawn i).2⟩
    · refine hp.step ?_ ?_ (hstep.1.where _ hstep.2)
      · intro g trace w i e r w' h hallowed hw
        exact mixInv_act h hallowed hw.1 hw.2
      · rintro g trace w l w' h ⟨rfl, -⟩
        exact mixInv_env h l
  obtain ⟨g, h, hobeys⟩ := hinv
  refine ⟨h.unmixed, fun l p' hstep => ?_⟩
  obtain ⟨hstep, hsteady⟩ := hstep
  cases hstep with
  | env hw => trivial
  | @act i e k r w htask hw =>
    have hallowed := hobeys i
    rw [htask] at hallowed
    cases e with
    | query collection q fake top_k filter =>
      intro hfake
      rw [hsteady hfake, h.read i "" (hallowed.1.2 hfake)]
    | collection_info collection => trivial
    | model_guard collection info model => trivial
    | embed_many texts => trivial
    | upsert collection dim model rows => trivial

/-! ## A collection that is stamped too late -/

/-- Numbers that are fine as they are. -/
theorem length_replicate_text (text : String) (dim : Nat) :
    (List.replicate dim text.length).length = dim :=
  List.length_replicate

def plainEmbedder : Embedder Nat where
  is_finite _ := true
  display := toString
  normalize v := some v
  fake_embed text dim := List.replicate dim text.length
  normalize_length v v' h := by rw [Option.some.inj h]
  fake_embed_length := length_replicate_text

/-- Where `ai` fails, the fake embedder takes over. -/
def fakeFallback : Config where
  rpc := true
  cfg := some { enabled := true, model := "bge-m3", fallback := .Fake }
  default_dim := 2

def note (id text : String) : UpsertRequest Nat where
  collection := "notes"
  id
  text := some text
  vector := none
  metadata := none

/-- Request 0 writes note "a", each other one note "b". -/
def twoNotes (i : Nat) : Config × Request Nat :=
  (fakeFallback, .upsert (if i = 0 then note "a" "milk" else note "b" "bread"))

def runNotes (cond : World Nat → RequestLabel Nat Nat → Prop) [∀ w l, Decidable (cond w l)]
    (moves : List (RequestMove Nat Nat)) : Option (List (RequestLabel Nat Nat) × Requests Nat Nat) :=
  runOf (answerRequest cond) (.start plainEmbedder twoNotes) moves

/-- The collection has a model and a row with a vector of the fake embedder. -/
def mixedNotes (w : World Nat) : Bool :=
  w.db.model "notes" = "bge-m3" &&
    (w.db.rowsOf "notes").any fun r => w.history.fakes ("notes", r.2.id)

/-- Both notes are embedded by `ai`. -/
def bothEmbedded : List (RequestMove Nat Nat) :=
  [.act 0 .ok, .act 0 .ok, .act 0 (.embedded [[1, 0]]), .act 0 .ok,
    .act 1 .ok, .act 1 .ok, .act 1 (.embedded [[0, 1]]), .act 1 .ok]

theorem vectors_never_mix_sample : ∃ r, runNotes Steady bothEmbedded = some r ∧
    r.2.world.db.model "notes" = "bge-m3" ∧
    (r.2.world.Unmixed ∧ ∀ l p', Where (fun p l => Steady p.world l) RequestStep r.2 l p' →
      SearchUnmixed r.2.world l) := by
  have hsome : ((runNotes Steady bothEmbedded).any fun r =>
      r.2.world.db.model "notes" = "bge-m3") = true := by
    decide
  obtain ⟨r, hr, hmodel⟩ := (Option.any_eq_true _ _).mp hsome
  exact ⟨r, hr, of_decide_eq_true hmodel,
    vectors_never_mix (run_runOf (fun _ _ _ _ h => requestStep_answerRequest h) hr)⟩

/-- `ai` is away for the first note and back for the second one. -/
def embeddedLater : List (RequestMove Nat Nat) :=
  [.act 0 .ok, .act 0 .ok, .act 0 (.refused "timed out"), .act 0 .ok,
    .act 1 .ok, .act 1 .ok, .act 1 (.embedded [[0, 1]]), .act 1 .ok]

theorem late_stamp_mixes_vectors : ∃ trace p,
    Run RequestStep (.start plainEmbedder twoNotes : Requests Nat Nat) trace p ∧ ¬ p.world.Unmixed := by
  have hsome : ((runNotes (fun _ _ => True) embeddedLater).any fun r => mixedNotes r.2.world) = true := by
    decide
  obtain ⟨r, hr, hmixed⟩ := (Option.any_eq_true _ _).mp hsome
  have hrun := run_runOf (f := answerRequest fun _ _ => True)
    (fun _ _ _ _ h => requestStep_answerRequest h) hr
  refine ⟨r.1, r.2, hrun.mono fun _ _ _ h => h.1, fun hunmixed => ?_⟩
  unfold mixedNotes at hmixed
  rw [Bool.and_eq_true, decide_eq_true_eq, List.any_eq_true] at hmixed
  obtain ⟨hmodel, row, hrow, hfake⟩ := hmixed
  obtain ⟨hhas, hname⟩ := Db.mem_rowsOf'.mp ⟨row.1, hrow⟩
  have hreal := hunmixed "notes" row.2 (by rw [hmodel]; decide) hhas hname
  rw [hreal] at hfake
  cases hfake

end VectorDb
