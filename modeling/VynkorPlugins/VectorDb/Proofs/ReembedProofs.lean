import VynkorPlugins.VectorDb.Reembed
import VynkorPlugins.VectorDb.Proofs.RowProofs

/-!
# Re-embedding is atomic

The task touches nothing but the shadow until the swap, which replaces all vectors at once. The shadow
holds new vectors only, as long as none was left from before.
-/

namespace VectorDb

open Transition

variable {F : Type} {collection model : String} {page dim : Nat} {new : String → List F}
  {before db db' : Db F} {s s' : Reembed F}

/-! ## The shadow -/

/-- The shadow holds the new vectors of its texts. -/
def ShadowsNew (collection : String) (new : String → List F) (db : Db F) : Prop :=
  ∀ s, db.vectors_reembed.Has s → s.collection = collection → s.vector = new s.text

namespace Db

theorem shadowOf_some (h : db.vectors_reembed.Unique Shadow.key) {r : Row F} {s : Shadow F}
    (hs : db.shadowOf r = some s) : db.vectors_reembed.Has s ∧ s.key = r.key := by
  unfold shadowOf at hs
  obtain ⟨⟨n, s'⟩, hfind, rfl⟩ := Option.map_eq_some_iff.mp hs
  obtain ⟨hn, hkey⟩ := (Table.findKey_eq_some h).mp hfind
  exact ⟨⟨n, hn⟩, hkey⟩

theorem mem_shadowsOf {n : Nat} {s : Shadow F} :
    (n, s) ∈ db.shadowsOf collection ↔ db.vectors_reembed[n]? = some s ∧ s.collection = collection := by
  unfold shadowsOf
  rw [Table.mem_selectWhere]
  simp

theorem newVector_some (h : db.vectors_reembed.Unique Shadow.key) (hnew : ShadowsNew collection new db)
    {r : Row F} (hr : r.collection = collection) {v : List F} (hv : db.newVector r = some v) :
    v = new r.text := by
  unfold newVector at hv
  obtain ⟨s, hs, rfl⟩ := Option.map_eq_some_iff.mp hv
  obtain ⟨hs, htext⟩ := Option.filter_eq_some_iff.mp hs
  obtain ⟨hhas, hkey⟩ := shadowOf_some h hs
  rw [hnew s hhas ((congrArg Prod.fst hkey).trans hr), of_decide_eq_true htext]

end Db

theorem shadowsNew_clear (db : Db F) : ShadowsNew collection new (db.clearShadow collection) := by
  intro s hs hcoll
  obtain ⟨n, -, hnot⟩ := Table.has_deleteWhere.mp hs
  exact (of_decide_eq_false hnot hcoll).elim

/-- The shadow rows are under their keys and hold new vectors. -/
structure Shadowed (collection : String) (new : String → List F) (db : Db F) : Prop where
  unique : db.vectors_reembed.Unique Shadow.key
  new : ShadowsNew collection new db

theorem Shadowed.put (h : Shadowed collection new db) {r : (String × String) × List F}
    (hr : r.2 = new r.1.2) : Shadowed collection new (db.putShadow collection r) := by
  refine ⟨h.unique.upsert _, fun s hs hcoll => ?_⟩
  rcases (Table.has_upsert h.unique).mp hs with rfl | ⟨hold, -⟩
  · exact hr
  · exact h.new s hold hcoll

theorem Shadowed.puts (h : Shadowed collection new db) {rows : List ((String × String) × List F)}
    (hrows : ∀ r ∈ rows, r.2 = new r.1.2) :
    Shadowed collection new (rows.foldl (Db.putShadow collection) db) := by
  induction rows generalizing db with
  | nil => exact h
  | cons r rows ih =>
    exact ih (h.put (hrows r List.mem_cons_self)) fun r' hr' => hrows r' (List.mem_cons_of_mem _ hr')

theorem foldl_putShadow_same (collection : String) (rows : List ((String × String) × List F)) (db : Db F) :
    (rows.foldl (Db.putShadow collection) db).vectors = db.vectors ∧
      (rows.foldl (Db.putShadow collection) db).collections = db.collections := by
  induction rows generalizing db with
  | nil => exact ⟨rfl, rfl⟩
  | cons r rows ih => exact ih (db.putShadow collection r)

/-! ## The swap -/

theorem swap_key (r : Row F) (vector : List F) :
    (if r.collection = collection then { r with vector } else r).key = r.key := by
  split_ifs
  · rfl
  · rfl

/-- What a swap that is done has made of the rows. -/
theorem swap_done {n : Nat} (h : db.swap_reembedded collection model = .ok (db', .Done n)) :
    (∀ r ∈ db'.rowsOf collection, ∃ old v, (r.1, old) ∈ db.rowsOf collection ∧ old.text ≠ "" ∧
        db.newVector old = some v ∧ r.2 = { old with vector := v }) ∧
      db'.collections = db.collections.modify collection (fun c =>
        { dim := ((db.shadowsOf collection).head?.map fun s => s.2.vector.length).getD c.dim, model }) ∧
      (db.WellFormed → db'.WellFormed) ∧
      db'.vectors_reembed = (db.clearShadow collection).vectors_reembed := by
  unfold Db.swap_reembedded at h
  dsimp only at h
  split_ifs at h with hstale hnone
  · cases h
  · obtain ⟨hdb, -⟩ := Prod.mk.inj (Except.ok.inj h)
    subst hdb
    refine ⟨?_, rfl, ?_, rfl⟩
    · rintro ⟨n, r⟩ hr
      obtain ⟨hn, hcoll⟩ := Db.mem_rowsOf.mp hr
      dsimp only at hn
      rw [Std.ExtTreeMap.getElem?_map, Option.map_eq_some_iff] at hn
      obtain ⟨old, hold, rfl⟩ := hn
      have holdcoll : old.collection = collection := by
        by_contra hne
        rw [if_neg hne] at hcoll
        exact hne hcoll
      have hsome : (db.newVector old).isNone = false := by
        rw [List.any_eq_true] at hnone
        by_contra htrue
        refine hnone ⟨(n, old), Db.mem_rowsOf.mpr ⟨hold, holdcoll⟩, ?_⟩
        simpa using htrue
      obtain ⟨v, hv⟩ := Option.isSome_iff_exists.mp (by simpa using hsome)
      rw [Table.getElem?_deleteWhere, Option.filter_eq_some_iff] at hold
      obtain ⟨hold, hkept⟩ := hold
      refine ⟨old, v, Db.mem_rowsOf.mpr ⟨hold, holdcoll⟩, fun htext => ?_, hv, ?_⟩
      · rw [decide_eq_true ⟨holdcoll, htext⟩] at hkept
        cases hkept
      · dsimp only
        rw [if_pos holdcoll, hv]
        rfl
    · intro hdb
      have hkept := hdb.unique.deleteWhere fun _ r => r.collection = collection ∧ r.text = ""
      refine ⟨fun n n' r r' hn hn' hkey => ?_, fun n r hn => ?_⟩
      · dsimp only at hn hn'
        rw [Std.ExtTreeMap.getElem?_map, Option.map_eq_some_iff] at hn hn'
        obtain ⟨old, hold, rfl⟩ := hn
        obtain ⟨old', hold', rfl⟩ := hn'
        rw [swap_key, swap_key] at hkey
        exact hkept n n' old old' hold hold' hkey
      · dsimp only at hn
        rw [Std.ExtTreeMap.getElem?_map, Option.map_eq_some_iff] at hn
        obtain ⟨old, hold, -⟩ := hn
        rw [Table.getElem?_deleteWhere, Option.filter_eq_some_iff] at hold
        exact hdb.pos n old hold.1

theorem swap_stale {n : Nat} (h : db.swap_reembedded collection model = .ok (db', .Stale n)) : db' = db := by
  unfold Db.swap_reembedded at h
  dsimp only at h
  split_ifs at h with hstale hnone
  · exact (Prod.mk.inj (Except.ok.inj h)).1.symm
  · obtain ⟨-, h⟩ := Prod.mk.inj (Except.ok.inj h)
    cases h

/-! ## The invariant -/

/-- What holds of the file by where the task is. -/
def Reembed.Phase (collection model : String) (dim : Nat) (new : String → List F) (before : Db F)
    (s : Reembed F) : Prop :=
  match s.pc with
  | .ddl | .clear | .failed _ | .finished (.error _) => Unchanged collection before s.db
  | .select _ | .embed .. | .dims _ | .swap _ =>
    Unchanged collection before s.db ∧ ShadowsNew collection new s.db
  | .insert _ rows =>
    Unchanged collection before s.db ∧ ShadowsNew collection new s.db ∧ ∀ r ∈ rows, r.2 = new r.1.2
  | .finished (.ok _) =>
    Reembedded collection new before s.db ∧ s.db.collections[collection]? = some { dim, model }

structure ReembedInv (collection model : String) (dim : Nat) (new : String → List F) (before : Db F)
    (s : Reembed F) : Prop where
  db : s.db.WellFormed
  unique : s.db.vectors_reembed.Unique Shadow.key
  phase : s.Phase collection model dim new before

theorem Unchanged.delete (h : Unchanged collection before db) (name id : String) :
    Unchanged collection before (db.delete name id).1 := by
  refine ⟨h.1, fun r hr => h.2 r ?_⟩
  rw [Db.rowsOf_delete] at hr
  exact List.mem_of_mem_filter hr

theorem Reembedded.delete (h : Reembedded collection new before db) (name id : String) :
    Reembedded collection new before (db.delete name id).1 := by
  intro r hr
  rw [Db.rowsOf_delete] at hr
  exact h r (List.mem_of_mem_filter hr)

theorem ReembedInv.delete (h : ReembedInv collection model dim new before s) (name id : String) :
    ReembedInv collection model dim new before { s with db := (s.db.delete name id).1 } := by
  refine ⟨h.db.delete name id, h.unique, ?_⟩
  have hphase := h.phase
  obtain ⟨db, pc⟩ := s
  unfold Reembed.Phase at hphase ⊢
  cases pc with
  | ddl => exact hphase.delete name id
  | clear => exact hphase.delete name id
  | select pass => exact ⟨hphase.1.delete name id, hphase.2⟩
  | embed pass rows => exact ⟨hphase.1.delete name id, hphase.2⟩
  | insert pass rows => exact ⟨hphase.1.delete name id, hphase.2⟩
  | dims pass => exact ⟨hphase.1.delete name id, hphase.2⟩
  | swap pass => exact ⟨hphase.1.delete name id, hphase.2⟩
  | failed e => exact hphase.delete name id
  | finished result =>
    cases result with
    | error e => exact hphase.delete name id
    | ok n => exact ⟨hphase.1.delete name id, hphase.2⟩

theorem Unchanged.congr (h : Unchanged collection before db) (hv : db'.vectors = db.vectors)
    (hc : db'.collections = db.collections) : Unchanged collection before db' := by
  refine ⟨?_, fun r hr => h.2 r ?_⟩
  · rw [hc]
    exact h.1
  · rw [← Db.rowsOf_congr hv]
    exact hr

/-- The swap that is done gives all rows their new vectors, and the collection the new dimension. -/
theorem swapped_done {n : Nat} {col : Collection} (hunchanged : Unchanged collection before db)
    (hshadowed : Shadowed collection new db) (hcol : before.collections[collection]? = some col)
    (hdim : ∀ text, (new text).length = dim)
    (hfound : db.shadowsOf collection ≠ [] ∨ db.collection_dim collection = some dim)
    (h : db.swap_reembedded collection model = .ok (db', .Done n)) :
    Reembedded collection new before db' ∧ db'.collections[collection]? = some { dim, model } := by
  obtain ⟨hrows, hcollections, -⟩ := swap_done h
  constructor
  · rintro ⟨n, r⟩ hr
    obtain ⟨old, v, hold, htext, hv, hr⟩ := hrows (n, r) hr
    dsimp only at hr ⊢
    obtain ⟨-, hname⟩ := Db.mem_rowsOf.mp hold
    have hvnew := Db.newVector_some hshadowed.unique hshadowed.new hname hv
    subst hr
    exact ⟨htext, hvnew, (n, old), hunchanged.2 _ hold, rfl, rfl⟩
  · have hdbcol : db.collections[collection]? = some col := hunchanged.1.trans hcol
    rw [hcollections, Table.modify_eq_insert _ hdbcol, Table.getElem?_insert_ite, if_pos rfl]
    congr 2
    cases hhead : (db.shadowsOf collection).head? with
    | none =>
      rcases hfound with hfound | hfound
      · exact (hfound (List.head?_eq_none_iff.mp hhead)).elim
      · unfold Db.collection_dim at hfound
        rw [hdbcol] at hfound
        exact Option.some.inj hfound
    | some s =>
      obtain ⟨hs, hname⟩ := Db.mem_shadowsOf.mp (List.mem_of_head? hhead)
      have hvector := hshadowed.new s.2 ⟨s.1, hs⟩ hname
      simp only [Option.map_some, Option.getD_some]
      rw [hvector, hdim]

/-! ## Steps and runs -/

theorem reembedInv_ok {col : Collection} (h : ReembedInv collection model dim new before s)
    (hcol : before.collections[collection]? = some col) (hdim : ∀ text, (new text).length = dim)
    (hnext : s.next collection model page new .ok = some s')
    (hswappable : s.Swappable collection dim (.task .ok)) :
    ReembedInv collection model dim new before s' := by
  have hphase := h.phase
  obtain ⟨db, pc⟩ := s
  have hdb : db.WellFormed := h.db
  have hunique : db.vectors_reembed.Unique Shadow.key := h.unique
  unfold Reembed.next at hnext
  unfold Reembed.Phase at hphase
  cases pc with
  | ddl =>
    obtain rfl := Option.some.inj hnext
    exact ⟨hdb, hunique, hphase⟩
  | clear =>
    obtain rfl := Option.some.inj hnext
    exact ⟨hdb.congr rfl, hunique.deleteWhere _, hphase.congr rfl rfl, shadowsNew_clear db⟩
  | select pass =>
    obtain rfl := Option.some.inj hnext
    unfold Reembed.selected
    split
    · exact ⟨hdb, hunique, hphase⟩
    · exact ⟨hdb, hunique, hphase⟩
  | embed pass rows =>
    obtain rfl := Option.some.inj hnext
    unfold Reembed.embedded
    dsimp only
    split_ifs
    · exact ⟨hdb, hunique, hphase.1⟩
    · refine ⟨hdb, hunique, hphase.1, hphase.2, ?_⟩
      have hzip : rows.zip (rows.map fun r => new r.2) = rows.map fun r => (r, new r.2) := by
        nth_rewrite 1 [← List.map_id rows]
        rw [List.zip_map']
        rfl
      rw [hzip]
      intro r hr
      obtain ⟨r, -, rfl⟩ := List.mem_map.mp hr
      rfl
  | insert pass rows =>
    obtain rfl := Option.some.inj hnext
    obtain ⟨hv, hc⟩ := foldl_putShadow_same collection rows db
    have hput := Shadowed.puts ⟨hunique, hphase.2.1⟩ hphase.2.2
    exact ⟨hdb.congr hv, hput.unique, hphase.1.congr hv hc, hput.new⟩
  | dims pass =>
    obtain rfl := Option.some.inj hnext
    unfold Reembed.checked
    split_ifs
    · exact ⟨hdb, hunique, hphase.1⟩
    · exact ⟨hdb, hunique, hphase⟩
  | swap pass =>
    obtain rfl := Option.some.inj hnext
    unfold Reembed.swapped
    split
    · exact ⟨hdb, hunique, hphase.1⟩
    · rename_i hswap
      obtain ⟨-, -, hwf, hre⟩ := swap_done hswap
      refine ⟨hwf hdb, ?_, swapped_done hphase.1 ⟨hunique, hphase.2⟩ hcol hdim hswappable hswap⟩
      dsimp only
      rw [hre]
      exact hunique.deleteWhere _
    · rename_i hswap
      obtain rfl := swap_stale hswap
      exact ⟨hdb, hunique, hphase⟩
    · rename_i hswap
      obtain rfl := swap_stale hswap
      exact ⟨hdb, hunique, hphase.1⟩
  | failed e =>
    obtain rfl := Option.some.inj hnext
    exact ⟨hdb.congr rfl, hunique.deleteWhere _, hphase.congr rfl rfl⟩
  | finished result => cases hnext

theorem reembedInv_refused (page : Nat) {e : String} (h : ReembedInv collection model dim new before s)
    (hnext : s.next collection model page new (.refused e) = some s')
    (hswappable : s.Swappable collection dim (.task (.refused e))) :
    ReembedInv collection model dim new before s' := by
  have hphase := h.phase
  obtain ⟨db, pc⟩ := s
  have hdb : db.WellFormed := h.db
  have hunique : db.vectors_reembed.Unique Shadow.key := h.unique
  unfold Reembed.next at hnext
  unfold Reembed.Phase at hphase
  cases pc with
  | ddl =>
    obtain rfl := Option.some.inj hnext
    exact ⟨hdb, hunique, hphase⟩
  | clear =>
    obtain rfl := Option.some.inj hnext
    refine ⟨hdb, hunique, hphase, ?_⟩
    rintro s ⟨n, hn⟩ hname
    have hmem := Db.mem_shadowsOf.mpr ⟨hn, hname⟩
    rw [show db.shadowsOf collection = [] from hswappable] at hmem
    cases hmem
  | select pass =>
    obtain rfl := Option.some.inj hnext
    exact ⟨hdb, hunique, hphase.1⟩
  | embed pass rows =>
    obtain rfl := Option.some.inj hnext
    exact ⟨hdb, hunique, hphase.1⟩
  | insert pass rows =>
    obtain rfl := Option.some.inj hnext
    exact ⟨hdb, hunique, hphase.1⟩
  | dims pass =>
    obtain rfl := Option.some.inj hnext
    exact ⟨hdb, hunique, hphase.1⟩
  | swap pass =>
    obtain rfl := Option.some.inj hnext
    exact ⟨hdb, hunique, hphase.1⟩
  | failed e' =>
    obtain rfl := Option.some.inj hnext
    exact ⟨hdb, hunique, hphase⟩
  | finished result => cases hnext

/-- A collection of the new dimension takes every new vector. -/
theorem passes_of_dim (hcol : db.collections[collection]? = some { dim, model })
    (hdim : ∀ text, (new text).length = dim) : Passes collection model new db := by
  have hcoll : db.collection_dim collection = some dim := by
    unfold Db.collection_dim
    rw [hcol]
    rfl
  intro text
  rw [hcoll, hdim]
  refine ⟨?_, rfl, fun rows => ?_⟩
  · simp [dim_mismatch, hdim]
  · refine ⟨rows.foldl (Db.putRow collection)
      ((db.createCollection collection dim).stamp collection (some model)), ?_⟩
    unfold Db.upsert
    dsimp only
    rw [Db.collection_dim_createCollection, if_pos rfl, hcoll]
    simp

/-- Re-embedding is atomic and leaves a collection that can be used: where every step of the task that
    clears the shadow gets rid of an older one, and the swap finds a shadow or the new dimension. -/
theorem reembed_atomic {col : Collection} {trace : List ReembedLabel} (hbefore : before.WellFormed)
    (hunique : before.vectors_reembed.Unique Shadow.key)
    (hcol : before.collections[collection]? = some col) (hdim : ∀ text, (new text).length = dim)
    (hrun : Run (Where (Reembed.Swappable collection dim)
      fun s l s' => Reembed.step collection model page new s l = some s')
      { db := before, pc := .ddl } trace s) :
    s.Atomic collection model new before := by
  have hinv : ReembedInv collection model dim new before s := by
    refine hrun.invariant_state ?_ fun s l s' h hstep => ?_
    · exact ⟨hbefore, hunique, rfl, fun r hr => hr⟩
    · obtain ⟨hstep, hswappable⟩ := hstep
      cases l with
      | delete name id =>
        obtain rfl := Option.some.inj hstep
        exact h.delete name id
      | task fate =>
        cases fate with
        | ok => exact reembedInv_ok h hcol hdim hstep hswappable
        | refused e => exact reembedInv_refused page h hstep hswappable
  have hphase := hinv.phase
  unfold Reembed.Phase at hphase
  unfold Reembed.Atomic
  split
  · rename_i e hpc
    rw [hpc] at hphase
    exact hphase
  · rename_i n hpc
    rw [hpc] at hphase
    refine ⟨hphase.1, ?_, passes_of_dim hphase.2 hdim⟩
    unfold Db.model
    rw [hphase.2]
    rfl
  · trivial

/-! ## A collection without texts -/

/-- The vectors of the new model. -/
def ones (_ : String) : List Nat := [1, 1, 1]

/-- A collection of another model and of dimension 2. -/
def emptyNotes : Db Nat :=
  { Db.empty with
    collections := (∅ : Table String Collection).insert "notes" { dim := 2, model := "minilm" } }

def notesWith (text : String) : Db Nat :=
  emptyNotes.putRow "notes" { id := "a", text, vector := [1, 0], metadata_json := "\x7b\x7d" }

theorem notesWith_wellFormed (text : String) : (notesWith text).WellFormed := by
  refine Db.WellFormed.putRow ⟨Table.unique_empty _, fun n r hr => ?_⟩ _
  simp [emptyNotes, Db.empty] at hr

theorem notesWith_collection (text : String) :
    (notesWith text).collections["notes"]? = some { dim := 2, model := "minilm" } := by
  change ((∅ : Table String Collection).insert "notes" _)["notes"]? = _
  rw [Table.getElem?_insert_ite, if_pos rfl]

def runReembed (before : Db Nat) (cond : Reembed Nat → ReembedLabel → Prop) [∀ s l, Decidable (cond s l)]
    (labels : List ReembedLabel) : Option (Reembed Nat) :=
  runWhere cond (Reembed.step "notes" "bge-m3" 64 ones) { db := before, pc := .ddl } labels

theorem reembed_atomic_sample : ∃ s,
    runReembed (notesWith "milk") (Reembed.Swappable "notes" 3) (List.replicate 8 (.task .ok)) = some s ∧
      s.db.collection_dim "notes" = some 3 ∧ s.Atomic "notes" "bge-m3" ones (notesWith "milk") := by
  have hsome : ((runReembed (notesWith "milk") (Reembed.Swappable "notes" 3)
      (List.replicate 8 (.task .ok))).any fun s => s.db.collection_dim "notes" = some 3) = true := by
    decide
  obtain ⟨s, hs, hdim⟩ := (Option.any_eq_true _ _).mp hsome
  exact ⟨s, hs, of_decide_eq_true hdim,
    reembed_atomic (notesWith_wellFormed _) (Table.unique_empty _) (notesWith_collection _)
      (fun _ => rfl) (run_of_runWhere .start hs)⟩

/-- Whether the re-embedding has ended well. -/
def Reembed.succeeded (s : Reembed Nat) : Bool :=
  match s.pc with
  | .finished (.ok _) => true
  | _ => false

/-- No text, no shadow: the collection gets the new model and keeps the old dimension. -/
theorem textless_swap_keeps_dim : ∃ trace s,
    Run (fun s l s' => Reembed.step "notes" "bge-m3" 64 ones s l = some s')
      { db := notesWith "", pc := .ddl } trace s ∧
    ¬ s.Atomic "notes" "bge-m3" ones (notesWith "") := by
  have hsome : ((runReembed (notesWith "") (fun _ _ => True) (List.replicate 5 (.task .ok))).any fun s =>
      s.succeeded &&
        s.db.collection_dim "notes" = some 2) = true := by
    decide
  obtain ⟨s, hs, hdim⟩ := (Option.any_eq_true _ _).mp hsome
  rw [Bool.and_eq_true, decide_eq_true_eq] at hdim
  unfold Reembed.succeeded at hdim
  refine ⟨_, s, (run_of_runWhere .start hs).mono fun _ _ _ h => h.1, fun hatomic => ?_⟩
  unfold Reembed.Atomic at hatomic
  split at hatomic
  · rename_i hpc
    rw [hpc] at hdim
    exact Bool.false_ne_true hdim.1
  · have hpasses := (hatomic.2.2 "").2.1
    rw [hdim.2] at hpasses
    exact absurd hpasses (by decide)
  · rename_i hfinished
    split at hdim
    · rename_i hpc
      exact hfinished _ hpc
    · exact Bool.false_ne_true hdim.1

end VectorDb
