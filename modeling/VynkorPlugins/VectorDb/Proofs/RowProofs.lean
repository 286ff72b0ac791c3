import VynkorPlugins.VectorDb.Loaded
import VynkorPlugins.VectorDb.Proofs.LoadedProofs

/-!
# The rows of a file and a copy of them

The pages of a collection are its rows, whatever else the file holds. A loaded copy mirrors the rows
whose vectors have its dimension, and keeps mirroring them when a write and a deletion are applied to
both.
-/

namespace VectorDb

variable {F : Type}

namespace Db

variable {db : Db F} {collection : String} {serde : Serde}

theorem mem_rowsOf {n : Nat} {r : Row F} :
    (n, r) ∈ db.rowsOf collection ↔ db.vectors[n]? = some r ∧ r.collection = collection := by
  unfold rowsOf
  rw [Table.mem_selectWhere]
  simp

theorem rowsOf_sorted (db : Db F) (collection : String) :
    (db.rowsOf collection).Pairwise fun a b => a.1 < b.1 := by
  unfold rowsOf Table.selectWhere
  refine (db.vectors.ordered_keys_toList.filter _).imp fun {a b} hab => ?_
  exact Nat.compare_eq_lt.mp hab

theorem rowsOf_length_le (db : Db F) (collection : String) :
    (db.rowsOf collection).length ≤ db.vectors.size := by
  unfold rowsOf Table.selectWhere
  refine (List.length_filter_le _ _).trans ?_
  rw [Std.ExtTreeMap.length_toList]

/-- Two lists of the same rows, each in the order of the numbers. -/
theorem rows_ext {ρ : Type} {rows rows' : List (Nat × ρ)} (h : rows.Pairwise fun a b => a.1 < b.1)
    (h' : rows'.Pairwise fun a b => a.1 < b.1) (hmem : ∀ r, r ∈ rows ↔ r ∈ rows') : rows = rows' := by
  have hne : ∀ {a b : Nat × ρ}, a.1 < b.1 → a ≠ b := by
    rintro a b hab rfl
    exact Nat.lt_irrefl _ hab
  refine List.Perm.eq_of_pairwise (fun a b _ _ hab hba => (Nat.lt_asymm hab hba).elim) h h' ?_
  exact (List.perm_ext_iff_of_nodup (h.imp hne) (h'.imp hne)).mpr hmem

/-! ## Pages -/

/-- What comes after a row, of the rows after a number. -/
theorem filter_lt_of_sorted {ρ : Type} {rows post : List (Nat × ρ)} {row : Nat × ρ} (n : Nat)
    (pre : List (Nat × ρ)) (h : rows.Pairwise fun a b => a.1 < b.1)
    (hsplit : rows.filter (fun r => n < r.1) = pre ++ row :: post) :
    rows.filter (fun r => row.1 < r.1) = post := by
  have hrow : n < row.1 := by
    have hmem : row ∈ rows.filter (fun r => n < r.1) := by
      rw [hsplit]
      exact List.mem_append_right _ List.mem_cons_self
    simpa using (List.mem_filter.mp hmem).2
  have hsorted : (pre ++ row :: post).Pairwise fun a b => a.1 < b.1 := hsplit ▸ h.filter _
  rw [List.pairwise_append, List.pairwise_cons] at hsorted
  obtain ⟨-, ⟨hpost, -⟩, hpre⟩ := hsorted
  have hagain : rows.filter (fun r => row.1 < r.1) =
      (rows.filter fun r => n < r.1).filter fun r => row.1 < r.1 := by
    rw [List.filter_filter]
    refine List.filter_congr fun r _ => ?_
    rw [eq_comm, Bool.and_eq_left_iff_imp]
    simp only [decide_eq_true_eq]
    exact hrow.trans
  rw [hagain, hsplit, List.filter_append, List.filter_cons_of_neg (by simp),
    List.filter_eq_nil_iff.mpr, List.nil_append, List.filter_eq_self]
  · intro r hr
    simpa using hpost r hr
  · intro r hr
    simpa using (hpre r hr row List.mem_cons_self).le

theorem forPages_eq {σ : Type} (body : σ → Nat × Row F → σ) {fuel last : Nat}
    (hfuel : ((db.rowsOf collection).filter fun r => last < r.1).length < fuel) (s : σ) :
    db.forPages collection body fuel last s =
      some (((db.rowsOf collection).filter fun r => last < r.1).foldl body s) := by
  induction fuel generalizing last s with
  | zero => exact (Nat.not_lt_zero _ hfuel).elim
  | succ fuel ih =>
    unfold forPages
    have hsplit := (List.take_append_drop PAGE_ROWS ((db.rowsOf collection).filter fun r => last < r.1))
    change db.page collection last ++ _ = _ at hsplit
    cases hlast : (db.page collection last).getLast? with
    | none =>
      have hpage := List.getLast?_eq_none_iff.mp hlast
      have hall : (db.rowsOf collection).filter (fun r => last < r.1) = [] := by
        unfold page at hpage
        rw [List.take_eq_nil_iff] at hpage
        exact hpage.resolve_left (by decide)
      rw [hall]
      rfl
    | some row =>
      -- the next page starts where this one ends
      obtain ⟨pre, hpre⟩ := List.getLast?_eq_some_iff.mp hlast
      have hrest : (db.rowsOf collection).filter (fun r => row.1 < r.1) =
          ((db.rowsOf collection).filter fun r => last < r.1).drop PAGE_ROWS := by
        refine filter_lt_of_sorted last pre (rowsOf_sorted db collection) ?_
        nth_rewrite 1 [← hsplit]
        rw [hpre, List.append_assoc]
        rfl
      dsimp only
      rw [ih, hrest, ← List.foldl_append, hsplit]
      rw [hrest]
      have hlength := congrArg List.length hsplit
      rw [hpre, List.length_append, List.length_append, List.length_singleton] at hlength
      omega

/-- The rows that have come with the pages so far. -/
def rowsTo (db : Db F) (collection : String) (last : Nat) : List (Nat × Row F) :=
  (db.rowsOf collection).filter fun r => r.1 ≤ last

theorem rowsTo_sorted (db : Db F) (collection : String) (last : Nat) :
    (db.rowsTo collection last).Pairwise fun a b => a.1 < b.1 :=
  (rowsOf_sorted db collection).filter _

/-- A page brings the rows up to its last one. -/
theorem rowsTo_page {last : Nat} {row : Nat × Row F} (h : (db.page collection last).getLast? = some row) :
    db.rowsTo collection row.1 = db.rowsTo collection last ++ db.page collection last := by
  obtain ⟨pre, hpre⟩ := List.getLast?_eq_some_iff.mp h
  have hsplit := List.take_append_drop PAGE_ROWS ((db.rowsOf collection).filter fun r => last < r.1)
  change db.page collection last ++ _ = _ at hsplit
  have hsorted := (rowsOf_sorted db collection).filter fun r => last < r.1
  rw [← hsplit, List.pairwise_append] at hsorted
  obtain ⟨hpage, -, hrest⟩ := hsorted
  have hlast : ∀ r ∈ db.page collection last, r.1 ≤ row.1 := by
    intro r hr
    rw [hpre] at hr hpage
    rw [List.pairwise_append] at hpage
    rcases List.mem_append.mp hr with hr | hr
    · exact (hpage.2.2 r hr row (List.mem_singleton_self _)).le
    · rw [List.mem_singleton.mp hr]
  have hrow : row ∈ db.page collection last := by
    rw [hpre]
    exact List.mem_append_right _ (List.mem_singleton_self _)
  have hmem : ∀ r, r ∈ db.page collection last → r ∈ db.rowsOf collection ∧ last < r.1 := by
    intro r hr
    have hr : r ∈ (db.rowsOf collection).filter fun r => last < r.1 := by
      rw [← hsplit]
      exact List.mem_append_left _ hr
    simpa using List.mem_filter.mp hr
  refine rows_ext (rowsTo_sorted _ _ _) ?_ fun r => ?_
  · rw [List.pairwise_append]
    refine ⟨rowsTo_sorted _ _ _, hpage, fun a ha b hb => ?_⟩
    have hle : a.1 ≤ last := by simpa using (List.mem_filter.mp ha).2
    exact hle.trans_lt (hmem b hb).2
  · unfold rowsTo
    rw [List.mem_append, List.mem_filter, List.mem_filter, decide_eq_true_eq, decide_eq_true_eq]
    constructor
    · rintro ⟨hr, hle⟩
      by_cases hold : r.1 ≤ last
      · exact .inl ⟨hr, hold⟩
      · have hnew : r ∈ (db.rowsOf collection).filter fun r => last < r.1 :=
          List.mem_filter.mpr ⟨hr, by simpa using hold⟩
        rw [← hsplit] at hnew
        refine .inr ((List.mem_append.mp hnew).resolve_right fun hr' => ?_)
        exact Nat.not_lt.mpr hle (hrest row hrow r hr')
    · rintro (⟨hr, hle⟩ | hr)
      · exact ⟨hr, hle.trans (hmem row hrow).2.le⟩
      · exact ⟨(hmem r hr).1, hlast r hr⟩

/-- After an empty page all rows have come. -/
theorem rowsTo_all {last : Nat} (h : (db.page collection last).getLast? = none) :
    db.rowsTo collection last = db.rowsOf collection := by
  have hpage := List.getLast?_eq_none_iff.mp h
  unfold page at hpage
  rw [List.take_eq_nil_iff] at hpage
  have hall := hpage.resolve_left (by decide)
  unfold rowsTo
  rw [List.filter_eq_self]
  intro r hr
  simpa using List.filter_eq_nil_iff.mp hall r hr

theorem WellFormed.rowsTo_zero (h : db.WellFormed) (collection : String) : db.rowsTo collection 0 = [] := by
  unfold rowsTo
  rw [List.filter_eq_nil_iff]
  rintro ⟨n, r⟩ hr
  have hpos := h.pos n r (mem_rowsOf.mp hr).1
  simpa using hpos.ne'

theorem WellFormed.rows_pos (h : db.WellFormed) (collection : String) :
    (db.rowsOf collection).filter (fun r => 0 < r.1) = db.rowsOf collection := by
  rw [List.filter_eq_self]
  rintro ⟨n, r⟩ hr
  simpa using h.pos n r (mem_rowsOf.mp hr).1

theorem WellFormed.forPages (h : db.WellFormed) {σ : Type} (body : σ → Nat × Row F → σ) (s : σ) :
    db.forPages collection body (db.vectors.size + 1) 0 s =
      some ((db.rowsOf collection).foldl body s) := by
  have hrows := h.rows_pos collection
  rw [forPages_eq body _ s, hrows]
  rw [hrows]
  exact Nat.lt_succ_of_le (rowsOf_length_le db collection)

/-! ## Writing and deleting -/

/-- The rows of a collection without their numbers. -/
theorem mem_rowsOf' {r : Row F} :
    (∃ n, (n, r) ∈ db.rowsOf collection) ↔ db.vectors.Has r ∧ r.collection = collection := by
  simp only [mem_rowsOf, exists_and_right]
  rfl

theorem WellFormed.ids_nodup (h : db.WellFormed) (collection : String) :
    ((db.rowsOf collection).map fun r => r.2.id).Nodup := by
  rw [List.Nodup, List.pairwise_map]
  refine (rowsOf_sorted db collection).imp_of_mem fun {a b} ha hb hab hid => ?_
  obtain ⟨ha, hac⟩ := mem_rowsOf.mp ha
  obtain ⟨hb, hbc⟩ := mem_rowsOf.mp hb
  have hkey : a.2.key = b.2.key := Prod.ext (hac.trans hbc.symm) hid
  exact hab.ne (h.unique _ _ _ _ ha hb hkey)

theorem WellFormed.putRow (h : db.WellFormed) (r : UpsertRow F) : (db.putRow collection r).WellFormed := by
  refine ⟨h.unique.upsert _, fun n row hrow => ?_⟩
  exact Table.upsert_pos h.pos hrow

theorem mem_putRow (h : db.WellFormed) {r : UpsertRow F} {row : Row F} :
    (∃ n, (n, row) ∈ (db.putRow collection r).rowsOf collection) ↔
      row = { collection, id := r.id, text := r.text, vector := r.vector, metadata := r.metadata_json } ∨
      (∃ n, (n, row) ∈ db.rowsOf collection) ∧ row.id ≠ r.id := by
  rw [mem_rowsOf', mem_rowsOf']
  unfold Db.putRow
  dsimp only
  rw [Table.has_upsert h.unique]
  constructor
  · rintro ⟨rfl | ⟨hhas, hkey⟩, hc⟩
    · exact .inl rfl
    · refine .inr ⟨⟨hhas, hc⟩, fun hid => hkey ?_⟩
      exact Prod.ext hc hid
  · rintro (rfl | ⟨⟨hhas, hc⟩, hid⟩)
    · exact ⟨.inl rfl, rfl⟩
    · exact ⟨.inr ⟨hhas, fun hkey => hid (congrArg Prod.snd hkey)⟩, hc⟩

theorem rowsOf_putRow_of_ne (h : db.WellFormed) {name : String} (hne : name ≠ collection)
    (r : UpsertRow F) : (db.putRow name r).rowsOf collection = db.rowsOf collection := by
  refine rows_ext (rowsOf_sorted _ _) (rowsOf_sorted _ _) ?_
  rintro ⟨n, row⟩
  rw [mem_rowsOf, mem_rowsOf, and_congr_left_iff]
  intro hc
  refine Table.getElem?_upsert_of_ne h.unique (fun hkey => hne ?_) n
  exact (congrArg Prod.fst hkey).symm.trans hc

theorem WellFormed.delete (h : db.WellFormed) (name id : String) : (db.delete name id).1.WellFormed := by
  refine ⟨h.unique.deleteWhere _, fun n r hr => ?_⟩
  unfold Db.delete at hr
  rw [Table.getElem?_deleteWhere, Option.filter_eq_some_iff] at hr
  exact h.pos n r hr.1

theorem rowsOf_delete (db : Db F) (name id : String) :
    (db.delete name id).1.rowsOf collection =
      (db.rowsOf collection).filter fun r => ¬ (collection = name ∧ r.2.id = id) := by
  refine rows_ext (rowsOf_sorted _ _) ((rowsOf_sorted _ _).filter _) ?_
  rintro ⟨n, row⟩
  rw [List.mem_filter, mem_rowsOf, mem_rowsOf]
  unfold Db.delete
  dsimp only
  rw [Table.getElem?_deleteWhere, Option.filter_eq_some_iff, and_assoc, and_assoc]
  refine and_congr_right fun _ => ?_
  rw [and_comm]
  refine and_congr_right ?_
  rintro rfl
  simp

/-! ## The transactions -/

@[simp]
theorem createCollection_vectors (dim : Nat) : (db.createCollection collection dim).vectors = db.vectors := by
  unfold createCollection
  split
  · rfl
  · rfl

@[simp]
theorem stamp_vectors (model : Option String) : (db.stamp collection model).vectors = db.vectors := by
  unfold stamp
  split
  · rfl
  · rfl

@[simp]
theorem foldl_putRow_collections (rows : List (UpsertRow F)) :
    (rows.foldl (putRow collection) db).collections = db.collections := by
  induction rows generalizing db with
  | nil => rfl
  | cons r rows ih => rw [List.foldl_cons, ih, putRow]

theorem collection_dim_createCollection (name : String) (dim : Nat) :
    (db.createCollection collection dim).collection_dim name =
      if name = collection then some ((db.collection_dim collection).getD dim)
      else db.collection_dim name := by
  unfold createCollection collection_dim
  cases hc : db.collections[collection]? with
  | some c =>
    dsimp only
    split_ifs with hname
    · rw [hname, hc]
      rfl
    · rfl
  | none =>
    dsimp only
    rw [Table.getElem?_insert_ite]
    by_cases hname : name = collection
    · rw [if_pos hname, if_pos hname.symm]
      rfl
    · rw [if_neg hname, if_neg (Ne.symm hname)]

theorem collection_dim_stamp (name : String) (model : Option String) :
    (db.stamp collection model).collection_dim name = db.collection_dim name := by
  unfold stamp collection_dim
  split
  · dsimp only
    rw [Std.ExtTreeMap.getElem?_modify]
    split
    · rename_i heq
      obtain rfl := Std.LawfulEqCmp.eq_of_compare heq
      cases db.collections[collection]? with
      | none => rfl
      | some c =>
        simp only [Option.map_some]
        split_ifs
        · rfl
        · rfl
    · rfl
  · rfl

/-- A write that goes through. -/
theorem upsert_ok {dim : Nat} {model : Option String} {rows : List (UpsertRow F)} {db' : Db F}
    (h : db.upsert collection dim model rows = .ok db') :
    (db.collection_dim collection).getD dim = dim ∧
      db' = rows.foldl (putRow collection) ((db.createCollection collection dim).stamp collection model) := by
  unfold upsert at h
  dsimp only at h
  rw [collection_dim_createCollection, if_pos rfl] at h
  dsimp only at h
  split_ifs at h with hdim
  · exact ⟨not_not.mp hdim, (Except.ok.inj h).symm⟩

theorem upsert_collection_dim {dim : Nat} {model : Option String} {rows : List (UpsertRow F)} {db' : Db F}
    (h : db.upsert collection dim model rows = .ok db') (name : String) :
    db'.collection_dim name = if name = collection then some dim else db.collection_dim name := by
  obtain ⟨hdim, rfl⟩ := upsert_ok h
  unfold collection_dim
  rw [foldl_putRow_collections]
  change collection_dim _ name = _
  rw [collection_dim_stamp, collection_dim_createCollection, hdim]
  rfl

theorem WellFormed.congr {db' : Db F} (h : db.WellFormed) (hv : db'.vectors = db.vectors) :
    db'.WellFormed :=
  ⟨hv ▸ h.unique, hv ▸ h.pos⟩

theorem WellFormed.putRows (h : db.WellFormed) (rows : List (UpsertRow F)) :
    (rows.foldl (Db.putRow collection) db).WellFormed := by
  induction rows generalizing db with
  | nil => exact h
  | cons r rows ih => exact ih (h.putRow r)

theorem WellFormed.upsert (h : db.WellFormed) {dim : Nat} {model : Option String}
    {rows : List (UpsertRow F)} {db' : Db F} (hok : db.upsert collection dim model rows = .ok db') :
    db'.WellFormed := by
  obtain ⟨-, rfl⟩ := upsert_ok hok
  refine WellFormed.putRows (h.congr ?_) rows
  rw [stamp_vectors, createCollection_vectors]

theorem rowsOf_congr {db' : Db F} (hv : db'.vectors = db.vectors) (name : String) :
    db'.rowsOf name = db.rowsOf name := by
  unfold rowsOf
  rw [hv]

theorem rowsOf_upsert_of_ne (h : db.WellFormed) {dim : Nat} {model : Option String}
    {rows : List (UpsertRow F)} {db' : Db F} (hok : db.upsert collection dim model rows = .ok db')
    {name : String} (hne : collection ≠ name) : db'.rowsOf name = db.rowsOf name := by
  obtain ⟨-, rfl⟩ := upsert_ok hok
  have hputs : ∀ (rows : List (UpsertRow F)) {db : Db F}, db.WellFormed →
      (rows.foldl (Db.putRow collection) db).rowsOf name = db.rowsOf name := by
    intro rows
    induction rows with
    | nil => exact fun _ => rfl
    | cons r rows ih =>
      intro db hdb
      rw [List.foldl_cons, ih (hdb.putRow r), rowsOf_putRow_of_ne hdb hne]
  have hv : ((db.createCollection collection dim).stamp collection model).vectors = db.vectors := by
    rw [stamp_vectors, createCollection_vectors]
  rw [hputs rows (h.congr hv), rowsOf_congr hv]

end Db

/-! ## Copies -/

namespace Entry

/-- What a stored row is in a copy. -/
def ofStored (serde : Serde) (r : Row F) : Entry F :=
  .ofRow serde r.id r.vector r.metadata

@[simp]
theorem ofStored_id (serde : Serde) (r : Row F) : (ofStored serde r).id = r.id := rfl

end Entry

/-- A copy holds the rows of a list whose vectors have its dimension. -/
def Loaded.Mirrors (serde : Serde) (l : Loaded F) (rows : List (Nat × Row F)) : Prop :=
  ∃ R, l.Holds R ∧
    ∀ e, e ∈ R ↔ ∃ r ∈ rows, r.2.vector.length = l.dim ∧ Entry.ofStored serde r.2 = e

section

variable {serde : Serde} {l : Loaded F} {rows rows' : List (Nat × Row F)} {db : Db F}
  {collection : String}

theorem mirrors_new (dim : Nat) : (Loaded.new dim : Loaded F).Mirrors serde [] := by
  refine ⟨[], holds_new dim, fun e => ?_⟩
  simp

/-- A row of a list with an id that has not come yet. -/
theorem mirrors_loadRow (h : l.Mirrors serde rows) {r : Nat × Row F}
    (hid : ∀ r' ∈ rows, r'.2.id ≠ r.2.id) : (Db.loadRow serde l r).Mirrors serde (rows ++ [r]) := by
  obtain ⟨R, hR, hmem⟩ := h
  unfold Db.loadRow
  split_ifs with hdim
  · refine ⟨_, holds_push hR hdim, fun e => ?_⟩
    rw [mem_push hR.nodup, hmem, push_dim]
    constructor
    · rintro (rfl | ⟨⟨r', hr', hdim', rfl⟩, -⟩)
      · exact ⟨r, by simp, hdim, rfl⟩
      · exact ⟨r', List.mem_append_left _ hr', hdim', rfl⟩
    · rintro ⟨r', hr', hdim', rfl⟩
      rcases List.mem_append.mp hr' with hr' | hr'
      · exact .inr ⟨⟨r', hr', hdim', rfl⟩, hid r' hr'⟩
      · obtain rfl := List.mem_singleton.mp hr'
        exact .inl rfl
  · refine ⟨R, hR, fun e => ?_⟩
    rw [hmem]
    constructor
    · rintro ⟨r', hr', hdim', rfl⟩
      exact ⟨r', List.mem_append_left _ hr', hdim', rfl⟩
    · rintro ⟨r', hr', hdim', rfl⟩
      rcases List.mem_append.mp hr' with hr' | hr'
      · exact ⟨r', hr', hdim', rfl⟩
      · obtain rfl := List.mem_singleton.mp hr'
        exact (hdim hdim').elim

theorem loadRow_dim (l : Loaded F) (r : Nat × Row F) : (Db.loadRow serde l r).dim = l.dim := by
  unfold Db.loadRow
  split_ifs
  · exact push_dim
  · rfl

theorem foldl_loadRow_dim (l : Loaded F) (rows : List (Nat × Row F)) :
    (rows.foldl (Db.loadRow serde) l).dim = l.dim := by
  induction rows generalizing l with
  | nil => rfl
  | cons r rows ih => rw [List.foldl_cons, ih, loadRow_dim]

/-- A page of rows with ids that have not come yet. -/
theorem mirrors_page (h : l.Mirrors serde rows)
    (hids : ((rows ++ rows').map fun r => r.2.id).Nodup) :
    (rows'.foldl (Db.loadRow serde) l).Mirrors serde (rows ++ rows') := by
  induction rows' generalizing rows l with
  | nil => simpa using h
  | cons r rows' ih =>
    rw [List.append_cons] at hids ⊢
    refine ih (mirrors_loadRow h fun r' hr' hid => ?_) hids
    rw [List.map_append, List.map_append, List.append_assoc, List.nodup_append] at hids
    exact hids.2.2 r'.2.id (List.mem_map.mpr ⟨r', hr', rfl⟩) r.2.id (by simp) hid

/-- A write to the rows and to the copy. -/
theorem mirrors_put (h : l.Mirrors serde (db.rowsOf collection)) (hdb : db.WellFormed)
    {r : UpsertRow F} (hdim : r.vector.length = l.dim) :
    (l.push serde r.id r.vector r.metadata_json).Mirrors serde
      ((db.putRow collection r).rowsOf collection) := by
  obtain ⟨R, hR, hmem⟩ := h
  refine ⟨_, holds_push hR hdim, fun e => ?_⟩
  have hrows := fun row : Row F => @Db.mem_putRow F db collection hdb r row
  rw [mem_push hR.nodup, hmem, push_dim]
  constructor
  · rintro (rfl | ⟨⟨⟨n, row⟩, hr', hdim', rfl⟩, hne⟩)
    · obtain ⟨n, hn⟩ := (hrows _).mpr (.inl rfl)
      exact ⟨_, hn, hdim, rfl⟩
    · obtain ⟨n', hn'⟩ := (hrows row).mpr (.inr ⟨⟨n, hr'⟩, hne⟩)
      exact ⟨_, hn', hdim', rfl⟩
  · rintro ⟨⟨n, row⟩, hr', hdim', rfl⟩
    rcases (hrows row).mp ⟨n, hr'⟩ with rfl | ⟨⟨n', hn'⟩, hne⟩
    · exact .inl rfl
    · exact .inr ⟨⟨_, hn', hdim', rfl⟩, hne⟩

theorem mirrors_delete (h : l.Mirrors serde (db.rowsOf collection)) (id : String) :
    (l.remove id).1.Mirrors serde ((db.delete collection id).1.rowsOf collection) := by
  obtain ⟨R, hR, hmem⟩ := h
  refine ⟨_, holds_remove hR, fun e => ?_⟩
  rw [mem_remove hR.nodup, hmem, remove_dim, Db.rowsOf_delete]
  constructor
  · rintro ⟨⟨r, hr, hdim, rfl⟩, hne⟩
    refine ⟨r, List.mem_filter.mpr ⟨hr, ?_⟩, hdim, rfl⟩
    simpa using hne
  · rintro ⟨r, hr, hdim, rfl⟩
    rw [List.mem_filter] at hr
    exact ⟨⟨r, hr.1, hdim, rfl⟩, by simpa using hr.2⟩

/-- The rows that a write brings, to the rows and to the copy. -/
theorem mirrors_puts (h : l.Mirrors serde (db.rowsOf collection)) (hdb : db.WellFormed)
    {rows : List (UpsertRow F)} (hdim : ∀ r ∈ rows, r.vector.length = l.dim) :
    (l.pushRows serde rows).Mirrors serde ((rows.foldl (Db.putRow collection) db).rowsOf collection) := by
  unfold Loaded.pushRows
  induction rows generalizing l db with
  | nil => exact h
  | cons r rows ih =>
    refine ih (mirrors_put h hdb (hdim r List.mem_cons_self)) (hdb.putRow r) fun r' hr' => ?_
    rw [push_dim]
    exact hdim r' (List.mem_cons_of_mem _ hr')

theorem pushRows_dim (l : Loaded F) (rows : List (UpsertRow F)) : (l.pushRows serde rows).dim = l.dim := by
  unfold Loaded.pushRows
  induction rows generalizing l with
  | nil => rfl
  | cons r rows ih => rw [List.foldl_cons, ih, push_dim]

theorem mirrors_upsert (h : l.Mirrors serde (db.rowsOf collection)) (hdb : db.WellFormed)
    {model : Option String} {rows : List (UpsertRow F)} {db' : Db F}
    (hok : db.upsert collection l.dim model rows = .ok db')
    (hdim : ∀ r ∈ rows, r.vector.length = l.dim) :
    (l.pushRows serde rows).Mirrors serde (db'.rowsOf collection) := by
  obtain ⟨-, rfl⟩ := Db.upsert_ok hok
  have hv : ((db.createCollection collection l.dim).stamp collection model).vectors = db.vectors := by
    rw [Db.stamp_vectors, Db.createCollection_vectors]
  rw [← Db.rowsOf_congr hv] at h
  exact mirrors_puts h (hdb.congr hv) hdim

/-- The next page of a load. -/
theorem mirrors_next (hdb : db.WellFormed) {last : Nat} {row : Nat × Row F}
    (h : l.Mirrors serde (db.rowsTo collection last)) (hrow : (db.page collection last).getLast? = some row) :
    ((db.page collection last).foldl (Db.loadRow serde) l).Mirrors serde (db.rowsTo collection row.1) := by
  rw [Db.rowsTo_page hrow]
  refine mirrors_page h ?_
  rw [← Db.rowsTo_page hrow]
  exact (hdb.ids_nodup collection).sublist (List.filter_sublist.map _)

theorem load_eq (serde : Serde) (collection : String) (hdb : db.WellFormed) (dim : Nat) :
    ∃ l, db.load serde collection dim = some l ∧ l.dim = dim ∧ l.Mirrors serde (db.rowsOf collection) := by
  refine ⟨_, hdb.forPages _ _, foldl_loadRow_dim _ _, ?_⟩
  exact mirrors_page (mirrors_new dim) (hdb.ids_nodup collection)

end

end VectorDb
