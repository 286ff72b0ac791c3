import Mathlib
import VynkorPlugins.VectorDb.Embedding
import VynkorPlugins.VectorDb.Proofs.MixProofs

/-!
# Batches and single requests

A batch that succeeds leaves the file as the requests of its documents do, one after the other, if `ai`
embeds all of its texts or none. A batch that fails leaves the file as it was.
-/

namespace VectorDb

open Async

variable {F S : Type} {ai : Ai F} {E : Embedder F}

/-! ## Texts, one after the other -/

theorem toOption_mapM {α β : Type} (f : α → Except String β) (xs : List α) :
    (xs.mapM f).toOption = xs.mapM fun x => (f x).toOption := by
  induction xs with
  | nil => rfl
  | cons x xs ih =>
    rw [List.mapM_cons, List.mapM_cons, ← ih]
    cases f x with
    | error e => rfl
    | ok y =>
      cases xs.mapM f with
      | error e => rfl
      | ok ys => rfl

theorem mapM_eq_none_iff {α β : Type} {f : α → Option β} {xs : List α} :
    xs.mapM f = none ↔ ∃ x ∈ xs, f x = none := by
  induction xs with
  | nil => exact ⟨nofun, nofun⟩
  | cons x xs ih =>
    rw [List.mapM_cons, List.exists_mem_cons_iff, ← ih]
    cases f x with
    | none => exact ⟨fun _ => .inl rfl, fun _ => rfl⟩
    | some y =>
      cases xs.mapM f with
      | none => exact ⟨fun _ => .inr rfl, fun _ => rfl⟩
      | some ys => exact ⟨nofun, nofun⟩

theorem mapM_bind_mapM {α β γ : Type} (f : α → Option β) (g : β → Option γ) (xs : List α) :
    ((xs.mapM f).bind fun ys => ys.mapM g) = xs.mapM fun x => (f x).bind g := by
  induction xs with
  | nil => rfl
  | cons x xs ih =>
    rw [List.mapM_cons, List.mapM_cons, ← ih]
    cases f x with
    | none => rfl
    | some y =>
      cases xs.mapM f with
      | none => cases hy : g y <;> simp [hy]
      | some ys => exact List.mapM_cons

theorem mapM_append_some {α β : Type} {f : α → Option β} (xs ys : List α) :
    (xs ++ ys).mapM f = (xs.mapM f).bind fun a => (ys.mapM f).map (a ++ ·) := by
  rw [List.mapM_append]
  cases xs.mapM f with
  | none => rfl
  | some a =>
    cases ys.mapM f with
    | none => rfl
    | some b => rfl

/-! ## Embedding -/

theorem flatten_text_chunks (size : Nat) (texts : List String) : (text_chunks size texts).flatten = texts := by
  have hcut := Pieces.cut_flatten size texts
  rw [text_chunks]
  dsimp only
  split_ifs with hrest
  · rw [hrest, List.append_nil] at hcut
    exact hcut
  · rw [List.flatten_append, List.flatten_singleton]
    exact hcut

/-- A chunk is embedded as each of its texts is, by either protocol. -/
theorem embed_chunk_spec (h : Pointwise ai) (chunk : List String) (array_unsupported : Bool) :
    (embed_chunk ai chunk array_unsupported).1.toOption =
      chunk.mapM fun t => (embed_single ai t).toOption := by
  rw [← toOption_mapM, embed_chunk]
  by_cases harray : 1 < chunk.length ∧ array_unsupported = false
  · have hpoint := h chunk harray.1
    rw [if_pos harray]
    cases hout : embed_array ai chunk with
    | ok out =>
      rw [hout] at hpoint
      rw [hpoint]
    | error e =>
      rw [hout] at hpoint
      dsimp only at hpoint ⊢
      by_cases hlooks : looks_like_array_unsupported e = true
      · rw [if_pos hlooks]
      · rw [if_neg hlooks]
        obtain ⟨t, ht, e', he'⟩ := hpoint.resolve_left hlooks
        rw [toOption_mapM, mapM_eq_none_iff.mpr ⟨t, ht, by rw [he']; rfl⟩]
        rfl
  · rw [if_neg harray]

theorem embed_chunks_spec (h : Pointwise ai) (chunks : List (List String)) (array_unsupported : Bool) :
    (embed_chunks ai chunks array_unsupported).1.toOption =
      chunks.flatten.mapM fun t => (embed_single ai t).toOption := by
  induction chunks generalizing array_unsupported with
  | nil => rfl
  | cons chunk chunks ih =>
    have hchunk := embed_chunk_spec h chunk array_unsupported
    rw [embed_chunks, List.flatten_cons, mapM_append_some, ← hchunk]
    rcases embed_chunk ai chunk array_unsupported with ⟨e | vectors, known⟩
    · rfl
    · dsimp only
      rw [← ih known]
      rcases embed_chunks ai chunks known with ⟨e | out, known'⟩
      · rfl
      · rfl

/-- The texts are embedded as each of them is. -/
theorem embed_many_spec (h : Pointwise ai) (batch : Nat) (texts : List String) (array_unsupported : Bool) :
    (embed_many ai E batch texts array_unsupported).1.toOption = texts.mapM (embed_one ai E) := by
  have hchunks := embed_chunks_spec h (text_chunks (max batch 1) texts) array_unsupported
  rw [flatten_text_chunks] at hchunks
  have hone : texts.mapM (embed_one ai E) =
      (texts.mapM fun t => (embed_single ai t).toOption).bind fun out => out.mapM E.normalize :=
    (mapM_bind_mapM _ _ _).symm
  rw [hone, ← hchunks, embed_many]
  rcases embed_chunks ai (text_chunks (max batch 1) texts) array_unsupported with ⟨e | out, known⟩
  · rfl
  · dsimp only
    cases hout : out.mapM E.normalize with
    | none => exact hout.symm
    | some out' => exact hout.symm

/-! ## Writes, one after the other -/

namespace Db

variable {db : Db F} {collection : String} {dim : Nat} {model model' : Option String}

/-- What a write does before its rows. -/
def prepare (db : Db F) (collection : String) (dim : Nat) (model : Option String) : Db F :=
  (db.createCollection collection dim).stamp collection model

theorem upsert_of_fits (h : (db.collection_dim collection).getD dim = dim) (rows : List (UpsertRow F)) :
    db.upsert collection dim model rows =
      .ok (rows.foldl (putRow collection) (db.prepare collection dim model)) := by
  unfold upsert
  dsimp only
  rw [collection_dim_createCollection, if_pos rfl, h]
  dsimp only
  rw [if_neg (not_not.mpr rfl)]
  rfl

theorem prepare_putRow (r : UpsertRow F) :
    (putRow collection db r).prepare collection dim model =
      putRow collection (db.prepare collection dim model) r := by
  have hcreate : (putRow collection db r).createCollection collection dim =
      putRow collection (db.createCollection collection dim) r := by
    unfold createCollection
    dsimp only [putRow]
    cases db.collections[collection]? with
    | some col => rfl
    | none => rfl
  rw [prepare, hcreate, prepare, stamp, stamp]
  cases model.filter fun m => m ≠ "" with
  | none => rfl
  | some m => rfl

theorem createCollection_stamp :
    (db.prepare collection dim model).createCollection collection dim = db.prepare collection dim model := by
  obtain ⟨col, hcol⟩ := @createCollection_has F db collection dim
  unfold prepare stamp
  cases model.filter fun m => m ≠ "" with
  | none =>
    dsimp only
    rw [createCollection, hcol]
  | some m =>
    dsimp only
    rw [createCollection, Table.modify_eq_insert _ hcol, Table.getElem?_insert_ite, if_pos rfl]

/-- Two writes of one model, or of a model and none, prepare as one does. -/
theorem prepare_prepare (h : model = none ∨ model' = none ∨ model = model') :
    (db.prepare collection dim model).prepare collection dim model' =
      db.prepare collection dim (model <|> model') := by
  rw [prepare, createCollection_stamp]
  obtain ⟨col, hcol⟩ := @createCollection_has F db collection dim
  cases model with
  | none => rfl
  | some m =>
    cases model' with
    | none => rfl
    | some m' =>
      obtain rfl : m = m' := by simpa using h
      change (db.prepare collection dim (some m)).stamp collection (some m) = db.prepare collection dim (some m)
      unfold prepare stamp
      by_cases hm : m = ""
      · rw [Option.filter_some, if_neg (by simpa using hm)]
      · rw [Option.filter_some, if_pos (by simpa using hm)]
        dsimp only
        refine congrArg (fun collections => { db.createCollection collection dim with collections }) ?_
        refine Std.ExtTreeMap.ext_getElem? fun name => ?_
        by_cases hname : collection = name
        · subst hname
          rw [Std.ExtTreeMap.getElem?_modify_self, Std.ExtTreeMap.getElem?_modify_self, Option.map_map]
          refine congrArg (fun f => Option.map f _) (funext fun col => ?_)
          by_cases hempty : col.model = ""
          · simp [hempty, hm]
          · simp [hempty]
        · have hcompare : ¬ compare collection name = .eq := fun h => hname (Std.LawfulEqOrd.eq_of_compare h)
          rw [Std.ExtTreeMap.getElem?_modify, if_neg hcompare]

/-- What a later request reads of a collection that was written to. -/
theorem collection_info_prepare (h : (db.collection_dim collection).getD dim = dim) :
    ∃ md, (db.prepare collection dim model).collection_info collection = some (dim, md) ∧
      (md = db.model collection ∨ model = some md) := by
  obtain ⟨col, hcol⟩ := @createCollection_has F db collection dim
  have hdim : (db.prepare collection dim model).collection_dim collection = some dim := by
    rw [prepare, collection_dim_stamp, collection_dim_createCollection, if_pos rfl, h]
  obtain ⟨col', hcol', hcol'dim⟩ := Option.map_eq_some_iff.mp hdim
  refine ⟨col'.model, ?_, ?_⟩
  · rw [collection_info, hcol', ← hcol'dim]
    rfl
  · have hmodel : (db.prepare collection dim model).model collection = col'.model := by
      rw [Db.model, hcol']
      rfl
    rw [← hmodel, prepare, model_stamp hcol, model_createCollection]
    split_ifs with hstamps
    · obtain ⟨-, hstamps⟩ := hstamps
      cases model with
      | none => simp [stamps] at hstamps
      | some m => exact .inr rfl
    · exact .inl rfl

theorem collection_info_putRow (r : UpsertRow F) :
    (putRow collection db r).collection_info collection = db.collection_info collection :=
  rfl

theorem collection_info_dim (db : Db F) (collection : String) :
    (db.collection_info collection).map Prod.fst = db.collection_dim collection := by
  rw [collection_info, Option.map_map]
  rfl

theorem model_of_none (h : db.collection_info collection = none) : db.model collection = "" := by
  rw [Db.model, Option.map_eq_none_iff.mp h]
  rfl

theorem model_of_info {i : Nat × String} (h : db.collection_info collection = some i) :
    i.2 = db.model collection := by
  obtain ⟨col, hcol, rfl⟩ := Option.map_eq_some_iff.mp h
  rw [Db.model, hcol]
  rfl

end Db

/-! ## What the parts of a request do -/

section

variable {way : Way F} {c : Config} {collection : String} {faults : Eff F → Option String} {s s' : Site F}

/-- A re-embed of the collection is running, or has failed a short time ago. -/
def World.Busy (w : World F) (collection : String) : Prop :=
  ∃ st, w.reembedding[collection]? = some st ∧ (st.running = true ∨ w.now < st.retry_after_ms)

/-- The guard lets a request that has read this pass. -/
def World.Lets (w : World F) (collection : String) (info : CollectionInfo) (model : String) : Prop :=
  ¬ w.Busy collection ∧ ∀ i ∈ info, i.2 = "" ∨ i.2 = model

theorem World.model_guard_cases (w : World F) (collection : String) (info : CollectionInfo) (model : String) :
    (w.Lets collection info model ∧ w.model_guard collection info model = (.ok (), w)) ∨
      ¬ w.Lets collection info model ∧
        ∃ e w', w.model_guard collection info model = (.error e, w') ∧ w'.db = w.db := by
  have hbusy : w.Busy collection ↔
      ((w.reembedding[collection]?).getD { running := false, fails := 0, retry_after_ms := w.now }).running = true ∨
        w.now < ((w.reembedding[collection]?).getD
          { running := false, fails := 0, retry_after_ms := w.now }).retry_after_ms := by
    unfold Busy
    cases w.reembedding[collection]? with
    | none => simp
    | some st => simp
  rw [World.model_guard]
  by_cases h : w.Busy collection
  · rw [if_pos (hbusy.mp h)]
    exact .inr ⟨fun hlets => hlets.1 h, _, _, rfl, rfl⟩
  · rw [if_neg fun hst => h (hbusy.mpr hst)]
    by_cases hstale : (info.any fun i => i.2 ≠ "" ∧ i.2 ≠ model) = true
    · rw [if_pos hstale]
      refine .inr ⟨fun hlets => ?_, _, _, rfl, rfl⟩
      obtain ⟨i, hi, hne⟩ := (Option.any_eq_true _ _).mp hstale
      have hmodel := hlets.2 i hi
      simp only [decide_eq_true_eq] at hne
      tauto
    · rw [if_neg hstale]
      refine .inl ⟨⟨h, ?_⟩, rfl⟩
      rintro i hi
      rw [Option.mem_def] at hi
      subst hi
      simp only [Option.any_some, decide_eq_true_eq] at hstale
      tauto

/-- Nothing has changed that a request reads. -/
structure Same (s s' : Site F) : Prop where
  db : s'.world.db = s.world.db
  reembedding : s'.world.reembedding = s.world.reembedding
  now : s'.world.now = s.world.now

/-- The guard lets a request on the collection pass. -/
structure Guarded (c : Config) (collection : String) (w : World F) : Prop where
  ready : ∀ cfg, c.embed_cfg = some cfg → ¬ w.Busy collection
  model : ∀ cfg, c.embed_cfg = some cfg →
    w.db.model collection = "" ∨ w.db.model collection = cfg.model

theorem Same.refl (s : Site F) : Same s s :=
  ⟨rfl, rfl, rfl⟩

theorem Same.trans {s₁ s₂ s₃ : Site F} (h : Same s₁ s₂) (h' : Same s₂ s₃) : Same s₁ s₃ :=
  ⟨h'.db.trans h.db, h'.reembedding.trans h.reembedding, h'.now.trans h.now⟩

theorem run_call {α : Type} (serve : (e : Eff F) → Site F → e.Answer S × Site F) {e : Eff F}
    {k : e.Answer S → Act F S α} {a : e.Answer S} {s₁ : Site F} (h : serve e s = (a, s₁)) :
    run serve (.call e k) s = run serve (k a) s₁ := by
  rw [run, h]

/-- The guard passes and changes nothing, or the request ends. -/
theorem run_model_guard (info : CollectionInfo) :
    (∀ cfg, c.embed_cfg = some cfg → s.world.Lets collection info cfg.model) ∧
        run (Site.serve (S := S) E way faults) (model_guard c collection info) s = (.ok (), s) ∨
      (¬ ∀ cfg, c.embed_cfg = some cfg → s.world.Lets collection info cfg.model) ∧
        ∃ e s', run (Site.serve (S := S) E way faults) (model_guard c collection info) s = (.error e, s') ∧
          s'.world.db = s.world.db := by
  unfold model_guard
  cases hcfg : c.embed_cfg with
  | none => exact .inl ⟨nofun, rfl⟩
  | some cfg =>
    have hall : (∀ cfg', some cfg = some cfg' → s.world.Lets collection info cfg'.model) ↔
        s.world.Lets collection info cfg.model :=
      ⟨fun h => h cfg rfl, fun h cfg' hcfg' => Option.some.inj hcfg' ▸ h⟩
    rw [hall]
    rcases World.model_guard_cases s.world collection info cfg.model with
      ⟨hlets, hguard⟩ | ⟨hnot, e, w', hguard, hdb⟩
    · have hserve : Site.serve (S := S) E way faults (.model_guard collection info cfg.model) s = (.ok (), s) :=
        congrArg (fun x => (x.1, { s with world := x.2 })) hguard
      exact .inl ⟨hlets, run_call _ hserve⟩
    · have hserve : Site.serve (S := S) E way faults (.model_guard collection info cfg.model) s =
          (.error e, { s with world := w' }) :=
        congrArg (fun x => (x.1, { s with world := x.2 })) hguard
      exact .inr ⟨hnot, e, _, run_call _ hserve, hdb⟩

theorem guarded_iff (hsame : Same s s') :
    Guarded c collection s.world ↔ ∀ cfg, c.embed_cfg = some cfg →
      s'.world.Lets collection (s.world.db.collection_info collection) cfg.model := by
  have hbusy : s'.world.Busy collection ↔ s.world.Busy collection := by
    unfold World.Busy
    rw [hsame.reembedding, hsame.now]
  have hmodel : ∀ model, (∀ i ∈ s.world.db.collection_info collection, i.2 = "" ∨ i.2 = model) ↔
      s.world.db.model collection = "" ∨ s.world.db.model collection = model := by
    intro model
    cases hinfo : s.world.db.collection_info collection with
    | none => exact ⟨fun _ => .inl (Db.model_of_none hinfo), fun _ => nofun⟩
    | some i =>
      rw [← Db.model_of_info hinfo]
      exact ⟨fun h => h i rfl, fun h i' hi' => Option.some.inj hi' ▸ h⟩
  constructor
  · exact fun h cfg hcfg => ⟨fun hst => h.ready cfg hcfg (hbusy.mp hst), (hmodel _).mpr (h.model cfg hcfg)⟩
  · exact fun h => ⟨fun cfg hcfg hst => (h cfg hcfg).1 (hbusy.mpr hst), fun cfg hcfg => (hmodel _).mp (h cfg hcfg).2⟩

/-- The guard is asked once the collection was read. -/
theorem begin_on_of_info {s₁ : Site F} {info : CollectionInfo}
    (h : Site.serve (S := S) E way faults (.collection_info collection) s = (.ok info, s₁)) :
    run (Site.serve (S := S) E way faults) (begin_on c collection) s =
      run (Site.serve (S := S) E way faults) (model_guard c collection info >>= fun
        | .error e => .done (.error e)
        | .ok () => .done (.ok info)) s₁ :=
  run_call _ h

/-- The collection is read, and the guard asked. -/
theorem run_begin_on :
    (∃ s', run (Site.serve (S := S) E way faults) (begin_on c collection) s =
        (.ok (s.world.db.collection_info collection), s') ∧ Same s s' ∧ Guarded c collection s.world) ∨
      (faults (.collection_info collection) = none → ¬ Guarded c collection s.world) ∧
        ∃ e s', run (Site.serve (S := S) E way faults) (begin_on c collection) s = (.error e, s') ∧
          s'.world.db = s.world.db := by
  cases hfault : faults (.collection_info collection) with
  | some e =>
    have hserve : Site.serve (S := S) E way faults (.collection_info collection) s = (.error e, s) := by
      rw [Site.serve, hfault]
      · rfl
      · intro texts h
        cases h
    refine .inr ⟨?_, e, s, run_call _ hserve, rfl⟩
    rintro ⟨⟩
  | none =>
    have hserve : ∃ s₁, Site.serve (S := S) E way faults (.collection_info collection) s =
        (.ok (s.world.db.collection_info collection), s₁) ∧ Same s s₁ := by
      rw [Site.serve, hfault]
      · exact ⟨_, rfl, rfl, rfl, rfl⟩
      · intro texts h
        cases h
    obtain ⟨s₁, hserve, hsame⟩ := hserve
    rw [begin_on_of_info hserve, run_bind, guarded_iff hsame]
    rcases run_model_guard (s.world.db.collection_info collection) with ⟨hlets, hguard⟩ | ⟨hnot, e, s', hguard, hdb⟩
    · rw [hguard]
      exact .inl ⟨s₁, rfl, hsame, hlets⟩
    · rw [hguard]
      exact .inr ⟨fun _ => hnot, e, s', rfl, hdb.trans hsame.db⟩

/-! ## Embedding for a request -/

/-- What embedding texts comes to, but for the text of an error. -/
def embedded_texts (ai : Ai F) (E : Embedder F) (c : Config) (texts : List String) (dim_hint : Option Nat) :
    Option (Embedded F) :=
  match c.embed_cfg with
  | none => if c.refuses_fake = true then none else some (fake_embedded E c texts dim_hint)
  | some cfg =>
    match texts.mapM (embed_one ai E) with
    | some vectors =>
      if (dim_mismatch dim_hint vectors).isSome then none else some { vectors, fake := false }
    | none => if cfg.fallback = .Error then none else some (fake_embedded E c texts dim_hint)

/-- The same for texts of a collection, with the model that is stamped. -/
def embedded_for (ai : Ai F) (E : Embedder F) (c : Config) (texts : List String) (info : CollectionInfo) :
    Option (Embedded F × Option String) :=
  (embedded_texts ai E c texts (info.map Prod.fst)).bind fun emb =>
    if emb.fake = true ∧ (info.any fun i => i.2 ≠ "") = true then none
    else some (emb, if emb.fake then none else c.cfg.map EmbedConfig.model)

theorem run_embed_texts (h : Pointwise way.ai) (dim_hint : Option Nat) (texts : List String) :
    ∃ r s', run (Site.serve (S := S) E way faults) (embed_texts E c texts dim_hint) s = (r, s') ∧
      s'.world = s.world ∧ r.toOption = embedded_texts way.ai E c texts dim_hint := by
  unfold embed_texts embedded_texts
  cases c.embed_cfg with
  | none =>
    dsimp only
    split_ifs with hrefuses
    · exact ⟨_, _, rfl, rfl, rfl⟩
    · exact ⟨_, _, rfl, rfl, rfl⟩
  | some cfg =>
    have hmany := embed_many_spec (E := E) h way.batch texts s.array_unsupported
    dsimp only
    rw [← hmany, await, perform_bind]
    rcases hcall : embed_many way.ai E way.batch texts s.array_unsupported with ⟨e | vectors, known⟩
    · have hserve : Site.serve (S := S) E way faults (.embed_many texts) s =
          (.error e, { s with array_unsupported := known }) := by
        rw [Site.serve, hcall]
      rw [run_call _ hserve]
      dsimp only
      split_ifs with hfallback
      · exact ⟨_, _, rfl, rfl, rfl⟩
      · exact ⟨_, _, rfl, rfl, rfl⟩
    · have hserve : Site.serve (S := S) E way faults (.embed_many texts) s =
          (.ok vectors, { s with array_unsupported := known }) := by
        rw [Site.serve, hcall]
      rw [run_call _ hserve]
      dsimp only
      cases hdim : dim_mismatch dim_hint vectors with
      | none => exact ⟨_, _, rfl, rfl, by simp [Except.toOption, hdim]⟩
      | some bad => exact ⟨_, _, rfl, rfl, by simp [Except.toOption, hdim]⟩

/-- The texts are embedded as far as the configuration has it, and nothing is written. -/
theorem run_embed_for (h : Pointwise way.ai) (info : CollectionInfo) (texts : List String) :
    ∃ r s', run (Site.serve (S := S) E way faults) (embed_for E c collection info texts) s = (r, s') ∧
      s'.world = s.world ∧ r.toOption = embedded_for way.ai E c texts info := by
  obtain ⟨r, s₁, hrun, hworld, hr⟩ :=
    @run_embed_texts F S E way c faults s h (info.map Prod.fst) texts
  rw [embed_for, run_bind, hrun, embedded_for, ← hr]
  cases r with
  | error e => exact ⟨_, s₁, rfl, hworld, rfl⟩
  | ok emb =>
    unfold refuse_fake_for_real_collection
    cases info with
    | none => exact ⟨_, s₁, rfl, hworld, by simp [Except.toOption]⟩
    | some i =>
      dsimp only
      by_cases hrefuse : emb.fake = true ∧ i.2 ≠ ""
      · rw [if_pos hrefuse]
        refine ⟨_, s₁, rfl, hworld, Eq.symm (if_pos ?_)⟩
        simpa using hrefuse
      · rw [if_neg hrefuse]
        refine ⟨_, s₁, rfl, hworld, Eq.symm (if_neg ?_)⟩
        simpa using hrefuse

/-! ## The vectors of a batch -/

theorem forall₂_of_mapM {α β : Type} {f : α → Option β} {xs : List α} {ys : List β}
    (h : xs.mapM f = some ys) : List.Forall₂ (fun x y => f x = some y) xs ys := by
  induction xs generalizing ys with
  | nil =>
    obtain rfl := Option.some.inj h
    exact .nil
  | cons x xs ih =>
    rw [List.mapM_cons] at h
    obtain ⟨y, hy, h⟩ := Option.bind_eq_some_iff.mp h
    obtain ⟨ys', hys', h⟩ := Option.bind_eq_some_iff.mp h
    obtain rfl := Option.some.inj h
    exact .cons hy (ih hys')

/-- A later request that embeds the text gets the vector that the batch got for it. -/
def Deals (ai : Ai F) (E : Embedder F) (c : Config) (info : CollectionInfo) (fake : Bool) (model : Option String)
    (t : String) (v : List F) : Prop :=
  ∀ info' : CollectionInfo, (info' = none → info = none) → (∀ i ∈ info', v.length = i.1) →
    (fake = true → ∀ i ∈ info', i.2 = "") → embedded_for ai E c [t] info' = some (⟨[v], fake⟩, model)

theorem embedded_for_eq_some {ai : Ai F} {texts : List String} {info : CollectionInfo} {emb : Embedded F}
    {model : Option String} (h : embedded_for ai E c texts info = some (emb, model)) :
    embedded_texts ai E c texts (info.map Prod.fst) = some emb ∧
      (emb.fake = true → ∀ i ∈ info, i.2 = "") ∧
      model = if emb.fake then none else c.cfg.map EmbedConfig.model := by
  obtain ⟨emb', hemb, h⟩ := Option.bind_eq_some_iff.mp h
  by_cases hrefuse : emb'.fake = true ∧ (info.any fun i => i.2 ≠ "") = true
  · rw [if_pos hrefuse] at h
    cases h
  · rw [if_neg hrefuse] at h
    obtain ⟨rfl, rfl⟩ := Prod.mk.inj (Option.some.inj h)
    refine ⟨hemb, fun hfake i hi => ?_, rfl⟩
    by_contra hne
    exact hrefuse ⟨hfake, (Option.any_eq_true _ _).mpr ⟨i, hi, decide_eq_true hne⟩⟩

theorem deals_of_embedded_for {ai : Ai F} {texts : List String} {info : CollectionInfo} {emb : Embedded F}
    {model : Option String} (h : embedded_for ai E c texts info = some (emb, model))
    (hall : AllOrNone E ai c texts) :
    List.Forall₂ (Deals ai E c info emb.fake model) texts emb.vectors := by
  have hlater : ∀ (info' : CollectionInfo) (v : List F), (∀ i ∈ info', v.length = i.1) →
      dim_mismatch (info'.map Prod.fst) [v] = none := by
    intro info' v hlength
    cases info' with
    | none => rfl
    | some i =>
      have hv : v.length = i.1 := hlength i rfl
      simp [dim_mismatch, hv]
  obtain ⟨hemb, -, rfl⟩ := embedded_for_eq_some h
  -- The fake vectors of a batch have the dimension that each later request reads.
  have hfakes : (∀ t ∈ texts, ∀ dim_hint, embedded_texts ai E c [t] dim_hint =
        some (fake_embedded E c [t] dim_hint)) → emb = fake_embedded E c texts (info.map Prod.fst) →
      List.Forall₂ (Deals ai E c info emb.fake (if emb.fake then none else c.cfg.map EmbedConfig.model)) texts
        emb.vectors := by
    rintro hone rfl
    refine List.forall₂_map_right_iff.mpr (List.forall₂_same.mpr fun t ht => ?_)
    intro info' hnone hlength hempty
    have hvector : fake_embedded E c [t] (info'.map Prod.fst) =
        ⟨[E.fake_embed t ((info.map Prod.fst).getD c.default_dim)], true⟩ := by
      cases info' with
      | none =>
        rw [hnone rfl]
        rfl
      | some i =>
        have hdim := hlength i rfl
        rw [E.fake_embed_length] at hdim
        rw [hdim]
        rfl
    rw [embedded_for, hone t ht, hvector]
    refine if_neg ?_
    rintro ⟨-, hany⟩
    obtain ⟨i, hi, hne⟩ := (Option.any_eq_true _ _).mp hany
    exact (of_decide_eq_true hne) (hempty rfl i hi)
  unfold embedded_texts at hemb
  cases hcfg : c.embed_cfg with
  | none =>
    rw [hcfg] at hemb
    dsimp only at hemb
    split_ifs at hemb with hrefuses
    refine hfakes (fun t _ dim_hint => ?_) (Option.some.inj hemb).symm
    rw [embedded_texts, hcfg]
    exact if_neg hrefuses
  | some cfg =>
    rw [hcfg] at hemb
    dsimp only at hemb
    cases hmany : texts.mapM (embed_one ai E) with
    | some vectors =>
      rw [hmany] at hemb
      dsimp only at hemb
      split_ifs at hemb with hmismatch
      obtain rfl := Option.some.inj hemb
      refine (forall₂_of_mapM hmany).imp fun t v hv info' _ hlength _ => ?_
      have hsingle : [t].mapM (embed_one ai E) = some [v] := by
        rw [List.mapM_cons, hv]
        rfl
      rw [embedded_for, embedded_texts, hcfg]
      dsimp only
      rw [hsingle]
      dsimp only
      rw [hlater info' v hlength]
      simp
    | none =>
      rw [hmany] at hemb
      dsimp only at hemb
      split_ifs at hemb with hfallback
      have hfake : cfg.fallback = .Fake := by
        cases hf : cfg.fallback with
        | Fake => rfl
        | Error => exact absurd hf hfallback
      refine hfakes (fun t ht dim_hint => ?_) (Option.some.inj hemb).symm
      rcases hall cfg hcfg hfake with hsome | hnone
      · obtain ⟨t', ht', hnone⟩ := mapM_eq_none_iff.mp hmany
        have := hsome t' ht'
        rw [hnone] at this
        cases this
      · rw [embedded_texts, hcfg]
        dsimp only
        rw [mapM_eq_none_iff.mpr ⟨t, List.mem_singleton_self t, hnone t ht⟩]
        exact if_neg hfallback

/-! ## One document after the other -/

def BatchDoc.row (doc : BatchDoc F) (vector : List F) : UpsertRow F :=
  { id := doc.id, text := doc.text.getD "", vector, metadata_json := metadata_json doc.metadata }

/-- The row of the first document, and the rows of the others. -/
theorem batch_rows_cons {fake : Bool} {n : Nat} {doc : BatchDoc F} {docs : List (BatchDoc F)}
    {dim dim' : Option Nat} {vectors : List (List F)} {rows : List (UpsertRow F × Bool)}
    (h : batch_rows E collection fake n (doc :: docs) dim vectors = .ok (dim', rows)) :
    ∃ v vectors' rows', rows = (doc.row v, doc.vector.isNone && fake) :: rows' ∧
      (∀ d, dim = some d → v.length = d) ∧
      batch_rows E collection fake (n + 1) docs (some v.length) vectors' = .ok (dim', rows') ∧
      ((∃ u, doc.vector = some u ∧ validate_and_normalize_vector E u dim = .ok v ∧ vectors' = vectors) ∨
        doc.vector = none ∧ vectors = v :: vectors') := by
  unfold batch_rows at h
  dsimp only at h
  split at h
  · cases h
  · rename_i v vectors' hvec
    split at h
    · cases h
    · rename_i hdim
      split at h
      · cases h
      · rename_i rest hrest
        obtain ⟨rfl, rfl⟩ := Prod.mk.inj (Except.ok.inj h)
        refine ⟨v, vectors', _, rfl, ?_, hrest, ?_⟩
        · rintro d rfl
          rw [Option.filter_some_eq_none] at hdim
          exact not_not.mp (of_decide_eq_false (by simpa using hdim))
        · split at hvec
          · rename_i _ u hu
            obtain ⟨v', hv', hpair⟩ := Rust.map_eq_ok.mp hvec
            obtain ⟨rfl, rfl⟩ := Prod.mk.inj hpair
            exact .inl ⟨u, hu, hv', rfl⟩
          · obtain ⟨rfl, rfl⟩ := Prod.mk.inj (Except.ok.inj hvec)
            exact .inr ⟨by assumption, rfl⟩
          · cases hvec

/-- What a single request makes of the vector or the text of its document. -/
theorem run_vector_for (h : Pointwise way.ai) (fake : Bool) {info : CollectionInfo} {text : Option String}
    {vector : Option (List F)} {v : List F} {model : Option String}
    (hv : (∃ u, vector = some u ∧ validate_and_normalize_vector E u (info.map Prod.fst) = .ok v ∧ model = none) ∨
      vector = none ∧ embedded_for way.ai E c [text.getD ""] info = some (⟨[v], fake⟩, model)) :
    ∃ fake' s', run (Site.serve (S := S) E way faults) (vector_for E c collection info text vector) s =
      (.ok (v, fake', model), s') ∧ s'.world = s.world := by
  rcases hv with ⟨u, rfl, hu, rfl⟩ | ⟨rfl, hemb⟩
  · refine ⟨false, s, ?_, rfl⟩
    unfold vector_for
    dsimp only
    rw [hu]
    rfl
  · obtain ⟨r, s', hrun, hworld, hr⟩ := @run_embed_for F S E way c collection faults s h info [text.getD ""]
    rw [hemb] at hr
    cases r with
    | error e => cases hr
    | ok x =>
      obtain rfl := Option.some.inj hr
      refine ⟨fake, s', ?_, hworld⟩
      unfold vector_for
      dsimp only
      rw [run_bind, hrun]
      rfl

theorem serve_upsert_of_ok {dim : Nat} {model : Option String} {rows : List (UpsertRow F × Bool)} {db' : Db F}
    (hfault : faults (.upsert collection dim model rows) = none)
    (h : s.world.db.upsert collection dim model (rows.map Prod.fst) = .ok db') :
    Site.serve (S := S) E way faults (.upsert collection dim model rows) s =
      (.ok rows.length, { s with world := s.world.write collection rows db' }) := by
  rw [Site.serve, hfault]
  · dsimp only [Option.elim, World.serve]
    rw [h]
  · exact nofun

/-- A write that is refused changes nothing. -/
theorem serve_upsert_cases {dim : Nat} {model : Option String} {rows : List (UpsertRow F × Bool)} :
    (∃ db', s.world.db.upsert collection dim model (rows.map Prod.fst) = .ok db' ∧
        Site.serve (S := S) E way faults (.upsert collection dim model rows) s =
          (.ok rows.length, { s with world := s.world.write collection rows db' })) ∨
      ∃ e, Site.serve (S := S) E way faults (.upsert collection dim model rows) s = (.error e, s) := by
  cases hfault : faults (.upsert collection dim model rows) with
  | some e =>
    refine .inr ⟨e, ?_⟩
    rw [Site.serve, hfault]
    · rfl
    · exact nofun
  | none =>
    cases hwrite : s.world.db.upsert collection dim model (rows.map Prod.fst) with
    | ok db' => exact .inl ⟨db', rfl, serve_upsert_of_ok hfault hwrite⟩
    | error e =>
      refine .inr ⟨e, ?_⟩
      rw [Site.serve, hfault]
      · dsimp only [Option.elim, World.serve]
        rw [hwrite]
      · intro texts h
        cases h

/-- A single request that the guard lets pass, with a vector that fits, is stored. -/
theorem run_upsert {doc : BatchDoc F} {v : List F} {model : Option String}
    (hguarded : Guarded c collection s.world)
    (hfits : (s.world.db.collection_dim collection).getD v.length = v.length)
    (hvector : ∀ s₁ : Site F, ∃ fake s', run (Site.serve (S := S) E way fun _ => none)
        (vector_for E c collection (s.world.db.collection_info collection) doc.text doc.vector) s₁ =
      (.ok (v, fake, model), s') ∧ s'.world = s₁.world) :
    ∃ s', run (Site.serve (S := S) E way fun _ => none) (upsert E c (doc.single collection)) s = (.ok 1, s') ∧
      s'.world.db = Db.putRow collection (s.world.db.prepare collection v.length model) (doc.row v) ∧
      s'.world.reembedding = s.world.reembedding ∧ s'.world.now = s.world.now := by
  obtain ⟨s₁, hbegin, hsame⟩ : ∃ s₁, run (Site.serve (S := S) E way fun _ => none) (begin_on c collection) s =
      (.ok (s.world.db.collection_info collection), s₁) ∧ Same s s₁ := by
    rcases @run_begin_on F S E way c collection (fun _ => none) s with ⟨s₁, hrun, hsame, -⟩ | ⟨hnot, -⟩
    · exact ⟨s₁, hrun, hsame⟩
    · exact absurd hguarded (hnot rfl)
  obtain ⟨fake, s₂, hrun, hworld⟩ := hvector s₁
  have hmismatch : (s.world.db.collection_info collection).filter (fun i => v.length ≠ i.1) = none := by
    rw [← Db.collection_info_dim] at hfits
    cases hinfo : s.world.db.collection_info collection with
    | none => rfl
    | some i =>
      rw [hinfo] at hfits
      have hlength : i.1 = v.length := hfits
      simp [hlength]
  have hwrite := @Db.upsert_of_fits F _ _ _ model hfits [doc.row v]
  rw [← hsame.db, ← hworld] at hwrite
  have hserve := @serve_upsert_of_ok F S E way collection (fun _ => none) s₂ _ _ [(doc.row v, fake)] _ rfl hwrite
  have hall : run (Site.serve (S := S) E way fun _ => none) (upsert E c (doc.single collection)) s =
      Site.serve (S := S) E way (fun _ => none) (.upsert collection v.length model [(doc.row v, fake)]) s₂ := by
    rw [upsert, run_bind]
    have hcollection : (doc.single collection).collection = collection := rfl
    rw [hcollection, hbegin]
    dsimp only
    rw [run_bind]
    have hparts : (doc.single collection).text = doc.text ∧ (doc.single collection).vector = doc.vector := ⟨rfl, rfl⟩
    rw [hparts.1, hparts.2, hrun]
    dsimp only
    rw [hmismatch]
    rfl
  rw [hserve] at hall
  refine ⟨_, hall, ?_, ?_, ?_⟩
  · rw [← hsame.db, ← hworld]
    rfl
  · exact (congrArg World.reembedding hworld).trans hsame.reembedding
  · exact (congrArg World.now hworld).trans hsame.now

/-- The model that some documents stamp. -/
def stamped_by (model : Option String) (docs : List (BatchDoc F)) : Option String :=
  if docs.any fun doc => doc.vector.isNone then model else none

theorem stamped_by_cons (model : Option String) (doc : BatchDoc F) (docs : List (BatchDoc F)) :
    stamped_by model (doc :: docs) = (stamped_by model [doc] <|> stamped_by model docs) := by
  cases model with
  | none => simp [stamped_by]
  | some m =>
    by_cases hnone : doc.vector.isNone = true
    · simp [stamped_by, hnone]
    · simp [stamped_by, hnone]

/-- The collection is as a request expects it: it has that dimension, the guard lets requests pass, and it
has no model if vectors are fake. -/
structure Stands (c : Config) (collection : String) (dim : Option Nat) (fake : Bool) (w : World F) : Prop where
  dim : w.db.collection_dim collection = dim
  guarded : Guarded c collection w
  model : fake = true → w.db.model collection = ""

/-- It stays so when a row is stored. -/
theorem Stands.write {dim : Option Nat} {fake : Bool} {model : Option String} {n : Nat} {row : UpsertRow F}
    (h : Stands c collection dim fake s.world) (hfits : dim.getD n = n) (hfake : fake = true → model = none)
    (hmodel : ∀ md, model = some md → ∀ cfg, c.embed_cfg = some cfg → md = cfg.model)
    (hdb : s'.world.db = Db.putRow collection (s.world.db.prepare collection n model) row)
    (hreembedding : s'.world.reembedding = s.world.reembedding) (hnow : s'.world.now = s.world.now) :
    Stands c collection (some n) fake s'.world := by
  rw [← h.dim] at hfits
  obtain ⟨md, hinfo, hmd⟩ := @Db.collection_info_prepare F _ _ _ model hfits
  rw [← Db.collection_info_putRow row, ← hdb] at hinfo
  have hsame : s'.world.db.model collection = md := (Db.model_of_info hinfo).symm
  refine ⟨?_, ⟨?_, ?_⟩, ?_⟩
  · rw [← Db.collection_info_dim, hinfo]
    rfl
  · intro cfg hcfg hbusy
    obtain ⟨st, hst, hst'⟩ := hbusy
    rw [hreembedding] at hst
    rw [hnow] at hst'
    exact h.guarded.ready cfg hcfg ⟨st, hst, hst'⟩
  · intro cfg hcfg
    rw [hsame]
    rcases hmd with rfl | hmd
    · exact h.guarded.model cfg hcfg
    · exact .inr (hmodel md hmd cfg hcfg)
  · intro htrue
    rw [hsame]
    rcases hmd with rfl | hmd
    · exact h.model htrue
    · rw [hfake htrue] at hmd
      cases hmd

/-- The first document of a batch, as a request of its own. -/
theorem upsert_first (h : Pointwise way.ai) {info : CollectionInfo} {fake : Bool} {model : Option String}
    (hfake : fake = true → model = none)
    (hmodel : ∀ md, model = some md → ∀ cfg, c.embed_cfg = some cfg → md = cfg.model)
    {doc : BatchDoc F} {docs : List (BatchDoc F)} {n : Nat} {dim dim' : Option Nat} {vectors : List (List F)}
    {rows : List (UpsertRow F × Bool)}
    (hrows : batch_rows E collection fake n (doc :: docs) dim vectors = .ok (dim', rows))
    (hdeals : List.Forall₂ (Deals way.ai E c info fake model) (texts_of (doc :: docs)) vectors)
    (hinfo : dim = none → info = none) (hs : Stands c collection dim fake s.world) :
    ∃ v vectors' rows' s₁, rows = (doc.row v, doc.vector.isNone && fake) :: rows' ∧
      batch_rows E collection fake (n + 1) docs (some v.length) vectors' = .ok (dim', rows') ∧
      List.Forall₂ (Deals way.ai E c info fake model) (texts_of docs) vectors' ∧
      run (Site.serve (S := S) E way fun _ => none) (upsert E c (doc.single collection)) s = (.ok 1, s₁) ∧
      s₁.world.db = Db.putRow collection (s.world.db.prepare collection v.length (stamped_by model [doc])) (doc.row v) ∧
      Stands c collection (some v.length) fake s₁.world := by
  obtain ⟨v, vectors', rows', rfl, hfits, hrest, hcase⟩ := batch_rows_cons hrows
  have hgetD : dim.getD v.length = v.length := by
    cases dim with
    | none => rfl
    | some d => exact (hfits d rfl).symm
  have hread : (s.world.db.collection_info collection).map Prod.fst = dim := by
    rw [Db.collection_info_dim, hs.dim]
  have hvector : List.Forall₂ (Deals way.ai E c info fake model) (texts_of docs) vectors' ∧
      ∀ s₁ : Site F, ∃ fake' s', run (Site.serve (S := S) E way fun _ => none)
        (vector_for E c collection (s.world.db.collection_info collection) doc.text doc.vector) s₁ =
          (.ok (v, fake', stamped_by model [doc]), s') ∧ s'.world = s₁.world := by
    rcases hcase with ⟨u, hu, hvalid, rfl⟩ | ⟨hnone, rfl⟩
    · have htexts : texts_of (doc :: docs) = texts_of docs := by
        rw [texts_of, List.filter_cons_of_neg (by simp [hu])]
        rfl
      rw [htexts] at hdeals
      refine ⟨hdeals, fun s₁ => run_vector_for h fake (.inl ⟨u, hu, ?_, ?_⟩)⟩
      · rw [hread]
        exact hvalid
      · simp [stamped_by, hu]
    · have htexts : texts_of (doc :: docs) = doc.text.getD "" :: texts_of docs := by
        rw [texts_of, List.filter_cons_of_pos (by simp [hnone])]
        rfl
      rw [htexts] at hdeals
      obtain ⟨hdeal, hdeals⟩ := List.forall₂_cons.mp hdeals
      refine ⟨hdeals, fun s₁ => run_vector_for h fake (.inr ⟨hnone, ?_⟩)⟩
      have hstamped : stamped_by model [doc] = model := by simp [stamped_by, hnone]
      rw [hstamped]
      refine hdeal _ ?_ ?_ ?_
      · intro hempty
        rw [hempty] at hread
        exact hinfo hread.symm
      · intro i hi
        rw [Option.mem_def.mp hi] at hread
        exact hfits i.1 hread.symm
      · intro htrue i hi
        rw [Db.model_of_info hi]
        exact hs.model htrue
  obtain ⟨hdeals, hvector⟩ := hvector
  obtain ⟨s₁, hrun, hdb, hreembedding, hnow⟩ := run_upsert hs.guarded (by rw [hs.dim]; exact hgetD) hvector
  refine ⟨v, vectors', rows', s₁, rfl, hrest, hdeals, hrun, hdb, ?_⟩
  refine hs.write hgetD ?_ ?_ hdb hreembedding hnow
  · intro htrue
    rw [stamped_by, hfake htrue, ite_self]
  · intro md hmd
    unfold stamped_by at hmd
    split_ifs at hmd
    exact hmodel md hmd

/-- The documents of a batch whose rows are built are stored one after the other, as the batch stores them. -/
theorem upsert_each_of_rows (h : Pointwise way.ai) {info : CollectionInfo} {fake : Bool} {model : Option String}
    (hfake : fake = true → model = none)
    (hmodel : ∀ md, model = some md → ∀ cfg, c.embed_cfg = some cfg → md = cfg.model)
    {doc : BatchDoc F} {docs : List (BatchDoc F)} {n d : Nat} {dim : Option Nat} {vectors : List (List F)}
    {rows : List (UpsertRow F × Bool)}
    (hrows : batch_rows E collection fake n (doc :: docs) dim vectors = .ok (some d, rows))
    (hdeals : List.Forall₂ (Deals way.ai E c info fake model) (texts_of (doc :: docs)) vectors)
    (hinfo : dim = none → info = none) (hs : Stands c collection dim fake s.world) :
    ∃ s', upsert_each (S := S) E way c collection (doc :: docs) s = .ok s' ∧
      s'.world.db = (rows.map Prod.fst).foldl (Db.putRow collection)
        (s.world.db.prepare collection d (stamped_by model (doc :: docs))) := by
  induction docs generalizing doc n dim vectors rows s with
  | nil =>
    obtain ⟨v, vectors', rows', s₁, rfl, hrest, -, hrun, hdb, -⟩ :=
      upsert_first h hfake hmodel hrows hdeals hinfo hs
    obtain ⟨hd, rfl⟩ := Prod.mk.inj (Except.ok.inj hrest)
    obtain rfl := Option.some.inj hd
    refine ⟨s₁, ?_, hdb⟩
    rw [upsert_each, hrun]
    rfl
  | cons doc' docs ih =>
    obtain ⟨v, vectors', rows', s₁, rfl, hrest, hdeals', hrun, hdb, hs₁⟩ :=
      upsert_first h hfake hmodel hrows hdeals hinfo hs
    have hd : v.length = d := (Option.some.inj ((batch_rows_dim hrest).1 v.length rfl)).symm
    obtain ⟨s', heach, hdb'⟩ := ih hrest hdeals' nofun hs₁
    refine ⟨s', ?_, ?_⟩
    · rw [upsert_each, hrun]
      exact heach
    · have heither : stamped_by model [doc] = none ∨ stamped_by model (doc' :: docs) = none ∨
          stamped_by model [doc] = stamped_by model (doc' :: docs) := by
        unfold stamped_by
        split_ifs
        · exact .inr (.inr rfl)
        · exact .inr (.inl rfl)
        · exact .inl rfl
        · exact .inl rfl
      rw [hdb', hdb, hd, Db.prepare_putRow, Db.prepare_prepare heither, ← stamped_by_cons]
      rfl

/-! ## Batches -/

/-- The texts of a batch are embedded as far as the configuration has it, and nothing is written. -/
theorem run_batch_embed (h : Pointwise way.ai) (r : BatchRequest F) (info : CollectionInfo) :
    ∃ x s', run (Site.serve (S := S) E way faults) (batch_embed E c r info) s = (x, s') ∧
      s'.world = s.world ∧ ∀ emb model, x = .ok (emb, model) →
        texts_of r.docs = [] ∧ emb = ⟨[], false⟩ ∧ model = none ∨
          texts_of r.docs ≠ [] ∧ embedded_for way.ai E c (texts_of r.docs) info = some (emb, model) := by
  unfold batch_embed
  by_cases htexts : texts_of r.docs = []
  · refine ⟨.ok (⟨[], false⟩, none), s, ?_, rfl, ?_⟩
    · change run _ (if texts_of r.docs = [] then _ else _) s = _
      rw [if_pos htexts]
      rfl
    · intro emb model hx
      obtain ⟨rfl, rfl⟩ := Prod.mk.inj (Except.ok.inj hx)
      exact .inl ⟨htexts, rfl, rfl⟩
  · obtain ⟨x, s', hrun, hworld, hx⟩ := @run_embed_for F S E way c r.collection faults s h info (texts_of r.docs)
    refine ⟨x, s', ?_, hworld, ?_⟩
    · change run _ (if texts_of r.docs = [] then _ else _) s = _
      rw [if_neg htexts]
      exact hrun
    · rintro emb model rfl
      exact .inr ⟨htexts, hx.symm⟩

/-- A batch leaves the file as it was, or it writes the rows of its documents. -/
theorem run_batch_upsert (h : Pointwise way.ai) (r : BatchRequest F) :
    ∃ result s', run (Site.serve (S := S) E way faults) (batch_upsert E c r) s = (result, s') ∧
      ((∃ e, result = .error e) ∧ s'.world.db = s.world.db ∨
        ∃ emb model dim rows, result = .ok rows.length ∧
          Guarded c r.collection s.world ∧
          (texts_of r.docs = [] ∧ emb = ⟨[], false⟩ ∧ model = none ∨
            texts_of r.docs ≠ [] ∧
              embedded_for way.ai E c (texts_of r.docs) (s.world.db.collection_info r.collection) =
                some (emb, model)) ∧
          batch_rows E r.collection emb.fake 0 r.docs (s.world.db.collection_dim r.collection) emb.vectors =
            .ok (dim, rows) ∧
          s.world.db.upsert r.collection (dim.getD c.default_dim) model (rows.map Prod.fst) = .ok s'.world.db) := by
  rw [batch_upsert, run_bind]
  rcases @run_begin_on F S E way c r.collection faults s with ⟨s₁, hbegin, hsame, hguarded⟩ | ⟨-, e, s₁, hbegin, hdb⟩
  · rw [hbegin]
    dsimp only
    rw [run_bind]
    obtain ⟨x, s₂, hembed, hworld, hx⟩ := @run_batch_embed F S E way c faults s₁ h r
      (s.world.db.collection_info r.collection)
    have hdb : s₂.world.db = s.world.db := by rw [hworld, hsame.db]
    rw [hembed]
    rcases x with e | ⟨emb, model⟩
    · exact ⟨_, s₂, rfl, .inl ⟨⟨e, rfl⟩, hdb⟩⟩
    · dsimp only
      rw [Db.collection_info_dim]
      cases hrows : batch_rows E r.collection emb.fake 0 r.docs (s.world.db.collection_dim r.collection) emb.vectors with
      | error e => exact ⟨_, s₂, rfl, .inl ⟨⟨e, rfl⟩, hdb⟩⟩
      | ok x =>
        obtain ⟨dim, rows⟩ := x
        rcases @serve_upsert_cases F S E way r.collection faults s₂
          (dim.getD c.default_dim) model rows with
          ⟨db', hwrite, hserve⟩ | ⟨e, hserve⟩
        · refine ⟨_, _, run_call _ hserve, .inr ⟨emb, model, dim, rows, rfl, hguarded, hx emb model rfl, hrows, ?_⟩⟩
          rw [← hdb]
          exact hwrite
        · exact ⟨_, _, run_call _ hserve, .inl ⟨⟨e, rfl⟩, hdb⟩⟩
  · rw [hbegin]
    exact ⟨_, s₁, rfl, .inl ⟨⟨e, rfl⟩, hdb⟩⟩

theorem stamped_by_eq {model : Option String} {docs : List (BatchDoc F)}
    (h : texts_of docs = [] → model = none) : stamped_by model docs = model := by
  unfold stamped_by
  split_ifs with hany
  · rfl
  · refine (h ?_).symm
    rw [texts_of, List.map_eq_nil_iff, List.filter_eq_nil_iff]
    intro doc hdoc hnone
    exact hany (List.any_eq_true.mpr ⟨doc, hdoc, hnone⟩)

end

/-! ## Two batches -/

/-- Vectors of length one, and those of zeros. -/
def unitEmbedder : Embedder Nat where
  is_finite _ := true
  display := toString
  normalize v := if v.all (· = 0) then none else some v
  fake_embed text dim := List.replicate dim text.length
  normalize_length v v' h := by
    split_ifs at h
    rw [Option.some.inj h]
  fake_embed_length := length_replicate_text

def noteVector (text : String) : List Nat :=
  if text = "milk" then [1, 0] else if text = "bread" then [0, 1] else [0, 0]

/-- An `ai` that embeds an array as each of its texts. -/
def noteAi : Ai Nat
  | .one text => .ok { embedding := some (.ok (noteVector text)), embeddings := none }
  | .many texts => .ok { embedding := none, embeddings := some (.ok (texts.map noteVector)) }

theorem pointwise_noteAi : Pointwise noteAi := by
  intro texts _
  have harray : embed_array noteAi texts = .ok (texts.map noteVector) := by
    simp [embed_array, noteAi]
  rw [harray]
  exact List.mapM_pure

def noteWay : Way Nat where
  ai := noteAi
  batch := 64

def textDoc (text : String) : BatchDoc Nat where
  id := text
  text := some text
  vector := none
  metadata := none

/-- A file without collections. -/
def emptySite : Site Nat where
  world :=
    { db := .empty, reembedding := ∅, now := 0
      history := { fakes := fun _ => false, read_model := fun _ => "" } }
  array_unsupported := false

/-- A batch on a file without collections. -/
def noteBatch (docs : List (BatchDoc Nat)) : Except String Nat × Site Nat :=
  run (Site.serve (S := Nat) unitEmbedder noteWay fun _ => none)
    (batch_upsert unitEmbedder fakeFallback { collection := "notes", docs }) emptySite

/-- A batch that succeeds has stored what the requests of its documents store one after the other, each of
which is acknowledged, if `ai` embeds all of its texts or none; one that fails has stored nothing. -/
theorem batch_eq_singles {way : Way F} {c : Config} {faults : Eff F → Option String} {s s' : Site F} {r : BatchRequest F}
    {result : Except String Nat} (hpoint : Pointwise way.ai) (hdocs : r.docs ≠ [])
    (hall : AllOrNone E way.ai c (texts_of r.docs))
    (hrun : run (Site.serve (S := S) E way faults) (batch_upsert E c r) s = (result, s')) :
    (∀ e, result = .error e → s'.world.db = s.world.db) ∧
      ∀ n, result = .ok n → ∃ each, upsert_each (S := S) E way c r.collection r.docs s = .ok each ∧
        each.world.db = s'.world.db := by
  obtain ⟨result', s₁, hrun', hcases⟩ := @run_batch_upsert F S E way c faults s hpoint r
  obtain ⟨rfl, rfl⟩ := Prod.mk.inj (hrun'.symm.trans hrun)
  rcases hcases with ⟨⟨e, rfl⟩, hdb⟩ | ⟨emb, model, dim, rows, rfl, hguarded, hemb, hrows, hwrite⟩
  · exact ⟨fun _ _ => hdb, nofun⟩
  · refine ⟨nofun, fun _ _ => ?_⟩
    have hparts : List.Forall₂ (Deals way.ai E c (s.world.db.collection_info r.collection) emb.fake model)
          (texts_of r.docs) emb.vectors ∧
        (emb.fake = true → model = none) ∧
        (emb.fake = true → s.world.db.model r.collection = "") ∧
        (∀ md, model = some md → ∀ cfg, c.embed_cfg = some cfg → md = cfg.model) ∧
        (texts_of r.docs = [] → model = none) := by
      rcases hemb with ⟨htexts, rfl, rfl⟩ | ⟨htexts, hemb⟩
      · rw [htexts]
        exact ⟨.nil, nofun, nofun, nofun, fun _ => rfl⟩
      · have hdeals := deals_of_embedded_for hemb hall
        obtain ⟨-, hempty, hmodel⟩ := embedded_for_eq_some hemb
        refine ⟨hdeals, fun hfake => ?_, fun hfake => ?_, fun md hmd cfg hcfg => ?_, fun hnil => absurd hnil htexts⟩
        · rw [hmodel, if_pos hfake]
        · cases hinfo : s.world.db.collection_info r.collection with
          | none => exact Db.model_of_none hinfo
          | some i =>
            rw [← Db.model_of_info hinfo]
            exact hempty hfake i hinfo
        · obtain ⟨hcfg, -⟩ := Option.filter_eq_some_iff.mp hcfg
          rw [hmd, hcfg] at hmodel
          split_ifs at hmodel
          exact Option.some.inj hmodel
    obtain ⟨hdeals, hfake, hempty, hmodel, hstamped⟩ := hparts
    rw [← stamped_by_eq hstamped] at hwrite
    cases hlist : r.docs with
    | nil => exact absurd hlist hdocs
    | cons doc docs =>
      rw [hlist] at hrows hdeals hwrite
      obtain ⟨v, vectors', rows', -, -, hrest, -⟩ := batch_rows_cons hrows
      have hdim := (batch_rows_dim hrest).1 v.length rfl
      rw [hdim] at hrows hwrite
      have hstands : Stands c r.collection (s.world.db.collection_dim r.collection) emb.fake s.world :=
        ⟨rfl, hguarded, hempty⟩
      have hnone : s.world.db.collection_dim r.collection = none →
          s.world.db.collection_info r.collection = none := by
        intro hdim
        rw [← Db.collection_info_dim] at hdim
        exact Option.map_eq_none_iff.mp hdim
      obtain ⟨each, heach, hdb⟩ := upsert_each_of_rows (S := S) hpoint hfake hmodel hrows hdeals hnone hstands
      obtain ⟨-, hwritten⟩ := Db.upsert_ok hwrite
      refine ⟨each, heach, ?_⟩
      rw [hdb, hwritten]
      rfl

theorem batch_eq_singles_sample :
    let docs := [textDoc "milk", { textDoc "soap" with vector := some [1, 0] }, textDoc "bread"]
    (noteBatch docs).1.toOption = some 3 ∧
      ∃ each, upsert_each (S := Nat) unitEmbedder noteWay fakeFallback "notes" docs emptySite = .ok each ∧
        each.world.db = (noteBatch docs).2.world.db := by
  intro docs
  have hcount : (noteBatch docs).1.toOption = some 3 := by decide +kernel
  have hok : (noteBatch docs).1 = .ok 3 := by
    cases hresult : (noteBatch docs).1 with
    | error e =>
      rw [hresult] at hcount
      cases hcount
    | ok n =>
      rw [hresult] at hcount
      rw [Option.some.inj hcount]
  have hall : AllOrNone unitEmbedder noteWay.ai fakeFallback (texts_of docs) := by
    intro cfg _ _
    refine .inl fun t ht => ?_
    have htexts : texts_of docs = ["milk", "bread"] := by decide +kernel
    rw [htexts, List.mem_cons, List.mem_singleton] at ht
    rcases ht with rfl | rfl
    · decide +kernel
    · decide +kernel
  have hrun := @batch_eq_singles Nat Nat unitEmbedder noteWay fakeFallback (fun _ => none) emptySite _
    { collection := "notes", docs } _ pointwise_noteAi (List.cons_ne_nil _ _) hall rfl
  exact ⟨hcount, hrun.2 3 hok⟩

/-- `ai` embeds one of two texts, so that the batch stores vectors of the fake embedder for both. One after
the other, the first is stored with its vector and the second is refused. -/
theorem half_embedded_batch :
    Pointwise noteWay.ai ∧ (noteBatch [textDoc "milk", textDoc "soap"]).1.toOption = some 2 ∧
      ¬ ∃ each, upsert_each (S := Nat) unitEmbedder noteWay fakeFallback "notes"
          [textDoc "milk", textDoc "soap"] emptySite = .ok each ∧
        each.world.db = (noteBatch [textDoc "milk", textDoc "soap"]).2.world.db := by
  refine ⟨pointwise_noteAi, by decide +kernel, ?_⟩
  rintro ⟨each, heach, -⟩
  have hrefused : (upsert_each (S := Nat) unitEmbedder noteWay fakeFallback "notes"
      [textDoc "milk", textDoc "soap"] emptySite).toOption.isNone = true := by decide +kernel
  rw [heach] at hrefused
  cases hrefused

end VectorDb
