import VynkorPlugins.Base.Proofs.LikeProofs
import VynkorPlugins.VectorDb.Proofs.RowProofs
import VynkorPlugins.VectorDb.Scan

/-!
# The two searches of a collection

Each search returns the best matching rows. The copy ranks rows with the same score by their places and
the file ranks them by their numbers, so the searches agree exactly where a tie among the best is in
the same order in both.
-/

namespace VectorDb

variable {F S : Type} {serde : Serde} {score : List F → List F → S} {q : List F} {k : Nat}
  {filter : Option Meta}

/-! ## What the searches rank -/

/-- The candidate that a row of a copy is, if the filter lets it pass. -/
def candOf (score : List F → List F → S) (q : List F) (filter : Option Meta) (e : Entry F × Nat) :
    Option (Cand S) :=
  if filtered filter e.1.metadata then none else some { score := score q e.1.vector, idx := e.2 }

/-- What a search in memory ranks. -/
def loadedCands (score : List F → List F → S) (q : List F) (filter : Option Meta) (R : List (Entry F)) :
    List (Cand S) :=
  R.zipIdx.filterMap (candOf score q filter)

/-- The candidate that a stored row is. -/
def candOfRow (serde : Serde) (score : List F → List F → S) (q : List F) (filter : Option Meta)
    (r : Nat × Row F) : Option (Cand S) :=
  if filtered filter (parse_meta serde r.2.metadata) ∨ r.2.vector.length ≠ q.length then none
  else some { score := score q r.2.vector, idx := r.1 }

/-- What a search in the file ranks. -/
def storedCands (serde : Serde) (score : List F → List F → S) (q : List F) (filter : Option Meta)
    (rows : List (Nat × Row F)) : List (Cand S) :=
  rows.filterMap (candOfRow serde score q filter)

theorem filterMap_ite {α β : Type} (p : α → Prop) [DecidablePred p] (f : α → β) (l : List α) :
    l.filterMap (fun a => if p a then none else some (f a)) = (l.filter fun a => ¬ p a).map f := by
  induction l with
  | nil => rfl
  | cons a l ih =>
    rw [List.filterMap_cons, ih]
    by_cases h : p a
    · simp [h]
    · simp [h]

theorem loadedCands_eq {R : List (Entry F)} : loadedCands score q filter R =
    (R.zipIdx.filter fun e => ¬ filtered filter e.1.metadata).map
      fun e => { score := score q e.1.vector, idx := e.2 } :=
  filterMap_ite _ _ _

theorem storedCands_eq {rows : List (Nat × Row F)} : storedCands serde score q filter rows =
    (rows.filter fun r =>
      ¬ (filtered filter (parse_meta serde r.2.metadata) ∨ r.2.vector.length ≠ q.length)).map
        fun r => { score := score q r.2.vector, idx := r.1 } :=
  filterMap_ite _ _ _

theorem hits_eq {db : Db F} {collection : String} : hits serde score db collection q filter =
    ((db.rowsOf collection).filter fun r =>
      ¬ (filtered filter (parse_meta serde r.2.metadata) ∨ r.2.vector.length ≠ q.length)).map
        fun r => (r.2.id, score q r.2.vector) :=
  filterMap_ite _ _ _

theorem hits_nodup {db : Db F} {collection : String} (hdb : db.WellFormed) :
    ((hits serde score db collection q filter).map Prod.fst).Nodup := by
  rw [hits_eq, List.map_map]
  exact (hdb.ids_nodup collection).sublist (List.filter_sublist.map _)

variable [LinearOrder S]

/-! ## The search in memory -/

section

variable {l : Loaded F} {R : List (Entry F)}

theorem chunks_eq (h : l.Holds R) (hpos : 0 < l.dim) : chunks l.dim l.data = R.map Entry.vector := by
  have hlength : l.data.length = R.length * l.dim := by
    rw [h.data, List.length_flatMap, List.map_congr_left h.dims, List.map_const',
      List.sum_replicate_nat]
  unfold chunks
  rw [hlength, Nat.mul_div_cancel _ hpos]
  refine List.ext_getElem (by simp) fun i hi hi' => ?_
  have hiR : i < R.length := by simpa using hi
  have hdims : ∀ e ∈ R.drop i, e.vector.length = l.dim := fun e he => h.dims e (List.mem_of_mem_drop he)
  rw [List.getElem_map, List.getElem_range, List.getElem_map, h.data, drop_flatMap h.dims]
  have hone := take_flatMap hdims 1
  rw [Nat.one_mul] at hone
  rw [hone, List.take_one, List.head?_drop, List.getElem?_eq_getElem hiR]
  simp

theorem foldl_scanChunk (h : l.Holds R) (rows : List (Entry F × Nat)) (hrows : ∀ r ∈ rows, R[r.2]? = some r.1)
    (top : List (Cand S)) :
    (rows.map fun r => (r.1.vector, r.2)).foldl (scanChunk score l.metadata q k filter) top =
      (rows.filterMap (candOf score q filter)).foldl (fun best c => (Selection.offer k best c).1) top := by
  induction rows generalizing top with
  | nil => rfl
  | cons r rows ih =>
    have hmeta : l.metadata.getD r.2 [] = r.1.metadata := by
      rw [h.metadata, List.getD_eq_getElem?_getD, List.getElem?_map, hrows r List.mem_cons_self]
      rfl
    rw [List.map_cons, List.foldl_cons, ih fun r' hr' => hrows r' (List.mem_cons_of_mem _ hr'),
      List.filterMap_cons]
    unfold scanChunk candOf
    dsimp only
    rw [hmeta]
    split_ifs
    · rfl
    · rfl

theorem scan_loaded_eq (h : l.Holds R) (hpos : 0 < l.dim) :
    scan_loaded score l q k filter =
      some (((Selection.rank (loadedCands score q filter R)).map
        fun c => (l.ids.getD c.idx "", c.score)).take k) := by
  have hzip : (chunks l.dim l.data).zipIdx = R.zipIdx.map fun r => (r.1.vector, r.2) := by
    rw [chunks_eq h hpos, List.zipIdx_map]
    rfl
  have hrows : ∀ r ∈ R.zipIdx, R[r.2]? = some r.1 := by
    rintro ⟨e, i⟩ hr
    exact List.mem_zipIdx_iff_getElem?.mp hr
  unfold scan_loaded
  rw [if_neg hpos.ne', hzip, foldl_scanChunk h _ hrows, ← List.map_take]
  change some ((Selection.select k _).map _) = _
  rw [Selection.select_eq]
  rfl

end

/-! ## The search in the file -/

theorem mem_offer {c : Cand S} {best : List (Cand S)} {c' : Cand S}
    (h : c' ∈ (Selection.offer k best c).1) : c' ∈ best ∨ c' = c ∧ (Selection.offer k best c).2 = true := by
  unfold Selection.offer at h ⊢
  split_ifs at h ⊢ with hlen
  · rw [List.mem_orderedInsert] at h
    exact h.elim (fun heq => .inr ⟨heq, rfl⟩) .inl
  · cases hlast : best.getLast? with
    | none =>
      rw [hlast] at h
      exact .inl h
    | some worst =>
      rw [hlast] at h
      dsimp only at h ⊢
      split_ifs at h ⊢ with hlt
      · rw [List.mem_orderedInsert] at h
        exact h.elim (fun heq => .inr ⟨heq, rfl⟩) fun hmem =>
          .inl ((List.dropLast_sublist best).subset hmem)
      · exact .inl h

/-- What the search has kept of the ids: that of each candidate it kept. -/
def IdsKept (rows : List (Nat × Row F)) (s : List (Cand S) × Table Nat String) : Prop :=
  (∀ (n : Nat) (id : String), s.2[n]? = some id → ∃ row, (n, row) ∈ rows ∧ row.id = id) ∧
    ∀ c ∈ s.1, (s.2[c.idx]?).isSome

theorem idsKept_scanRow (serde : Serde) {rows : List (Nat × Row F)} {s : List (Cand S) × Table Nat String}
    (h : IdsKept rows s) {r : Nat × Row F} (hr : r ∈ rows) :
    IdsKept rows (scanRow serde score q k filter s r) := by
  unfold scanRow
  split_ifs with hfilter hlength
  · exact h
  · exact h
  · dsimp only
    split_ifs with hentered
    · refine ⟨fun n id hid => ?_, fun c hc => ?_⟩
      · rw [Table.getElem?_insert_ite] at hid
        split_ifs at hid with hn
        · subst hn
          exact ⟨r.2, hr, Option.some.inj hid⟩
        · exact h.1 n id hid
      · rw [Table.getElem?_insert_ite]
        split_ifs with hn
        · rfl
        · rcases mem_offer hc with hold | ⟨rfl, -⟩
          · exact h.2 c hold
          · exact (hn rfl).elim
    · refine ⟨h.1, fun c hc => ?_⟩
      rcases mem_offer hc with hold | ⟨-, hnew⟩
      · exact h.2 c hold
      · exact (hentered hnew).elim

theorem foldl_scanRow (serde : Serde) (score : List F → List F → S) (q : List F) (k : Nat)
    (filter : Option Meta) {rows all : List (Nat × Row F)} (hrows : ∀ r ∈ rows, r ∈ all)
    {s : List (Cand S) × Table Nat String} (h : IdsKept all s) :
    IdsKept all (rows.foldl (scanRow serde score q k filter) s) ∧
      (rows.foldl (scanRow serde score q k filter) s).1 =
        (rows.filterMap (candOfRow serde score q filter)).foldl
          (fun best c => (Selection.offer k best c).1) s.1 := by
  induction rows generalizing s with
  | nil => exact ⟨h, rfl⟩
  | cons r rows ih =>
    obtain ⟨hkept, htop⟩ := ih (fun r' hr' => hrows r' (List.mem_cons_of_mem _ hr'))
      (idsKept_scanRow serde h (hrows r List.mem_cons_self))
    refine ⟨hkept, ?_⟩
    rw [List.foldl_cons, htop, List.filterMap_cons]
    unfold scanRow candOfRow
    by_cases hfilter : filtered filter (parse_meta serde r.2.metadata) = true
    · rw [if_pos hfilter, if_pos (.inl hfilter)]
    · by_cases hlength : r.2.vector.length ≠ q.length
      · rw [if_neg hfilter, if_pos hlength, if_pos (.inr hlength)]
      · rw [if_neg hfilter, if_neg hlength, if_neg (not_or.mpr ⟨hfilter, hlength⟩)]
        rfl

/-- The id of a row number. -/
def idAt (rows : List (Nat × Row F)) (n : Nat) : String :=
  ((rows.find? fun r => r.1 = n).map fun r => r.2.id).getD ""

theorem idAt_eq {rows : List (Nat × Row F)} (h : rows.Pairwise fun a b => a.1 < b.1) {n : Nat} {row : Row F}
    (hrow : (n, row) ∈ rows) : idAt rows n = row.id := by
  unfold idAt
  cases hfind : rows.find? fun r => r.1 = n with
  | none => simpa using List.find?_eq_none.mp hfind _ hrow
  | some r =>
    have hmem := List.mem_of_find?_eq_some hfind
    have hn : r.1 = n := by simpa using List.find?_some hfind
    have hnodup : (rows.map Prod.fst).Nodup := by
      rw [List.Nodup, List.pairwise_map]
      exact h.imp fun hab => hab.ne
    obtain rfl := List.inj_on_of_nodup_map hnodup hmem hrow hn
    rfl

theorem scan_sqlite_eq {db : Db F} (hdb : db.WellFormed) (collection : String) :
    scan_sqlite serde score db collection q k filter =
      some (((Selection.rank (storedCands serde score q filter (db.rowsOf collection))).map
        fun c => (idAt (db.rowsOf collection) c.idx, c.score)).take k) := by
  have hempty : IdsKept (db.rowsOf collection) (([], ∅) : List (Cand S) × Table Nat String) := by
    refine ⟨fun n id hid => ?_, by simp⟩
    simp at hid
  obtain ⟨⟨hids, hkept⟩, htop⟩ := foldl_scanRow serde score q k filter (fun r hr => hr) hempty
  unfold scan_sqlite
  rw [hdb.forPages, Option.map_some, ← List.map_take]
  rw [show _ = Selection.select k (storedCands serde score q filter (db.rowsOf collection)) from htop,
    Selection.select_eq] at hkept ⊢
  rw [← List.filterMap_eq_map]
  congr 1
  refine List.filterMap_congr fun c hc => ?_
  obtain ⟨id, hid⟩ := Option.isSome_iff_exists.mp (hkept c hc)
  obtain ⟨row, hrow, rfl⟩ := hids c.idx id hid
  rw [hid, Function.comp_apply, idAt_eq (Db.rowsOf_sorted db collection) hrow]
  rfl

/-! ## The two rankings -/

theorem cand_lt_iff {c c' : Cand S} :
    c' < c ↔ c'.score < c.score ∨ c'.score = c.score ∧ c.idx < c'.idx := by
  change c'.cmp < c.cmp ↔ _
  rw [Cand.cmp, Cand.cmp, Prod.Lex.toLex_lt_toLex]
  rfl

theorem ahead_asymm {place : String → Nat} (a b : String × S) (h : Ahead place a b) : ¬ Ahead place b a := by
  rintro (hlt | ⟨heq, hplace⟩)
  · rcases h with hlt' | ⟨heq', -⟩
    · exact hlt.asymm hlt'
    · exact hlt.ne heq'
  · rcases h with hlt' | ⟨-, hplace'⟩
    · exact hlt'.ne heq
    · exact Nat.lt_asymm hplace hplace'

theorem ahead_score {place : String → Nat} (a b : String × S) (h : Ahead place a b) : b.2 ≤ a.2 := by
  rcases h with hlt | ⟨heq, -⟩
  · exact hlt.le
  · exact heq.ge

/-- The ranking of candidates, told by ids. -/
theorem rank_ahead {cands : List (Cand S)} (hnodup : (cands.map Cand.idx).Nodup) {idOf : Nat → String}
    {place : String → Nat} (hplace : ∀ c ∈ cands, place (idOf c.idx) = c.idx) :
    ((Selection.rank cands).map fun c => (idOf c.idx, c.score)).Pairwise (Ahead place) := by
  have hmem : ∀ c ∈ Selection.rank cands, c ∈ cands := fun c hc => (Selection.rank_perm cands).mem_iff.mp hc
  have hne : (Selection.rank cands).Pairwise fun c c' => c.idx ≠ c'.idx := by
    rw [← List.pairwise_map (f := Cand.idx) (R := fun i j => i ≠ j)]
    exact ((Selection.rank_perm cands).map Cand.idx).nodup_iff.mpr hnodup
  rw [List.pairwise_map]
  refine (List.Pairwise.and (Selection.rank_sorted cands) hne).imp_of_mem fun {c c'} hc hc' h => ?_
  have hlt : c' < c := lt_of_le_of_ne h.1 fun heq => h.2 (by rw [heq])
  rcases cand_lt_iff.mp hlt with hscore | ⟨heq, hidx⟩
  · exact .inl hscore
  · refine .inr ⟨heq.symm, ?_⟩
    rwa [hplace c (hmem c hc), hplace c' (hmem c' hc')]

/-- The first ones of a ranking are the best. -/
theorem best_take {place : String → Nat} {all ranked : List (String × S)} (hperm : ranked.Perm all)
    (hnodup : (all.map Prod.fst).Nodup) (h : ranked.Pairwise (Ahead place)) (k : Nat) :
    Best k all (ranked.take k) := by
  have hdesc : ranked.Pairwise fun a b => b.2 ≤ a.2 := h.imp fun hab => ahead_score _ _ hab
  constructor
  · rw [List.length_take, hperm.length_eq]
  · intro a ha
    exact hperm.mem_iff.mp (List.mem_of_mem_take ha)
  · exact ((hperm.map Prod.fst).nodup_iff.mpr hnodup).sublist ((List.take_sublist _ _).map _)
  · exact hdesc.sublist (List.take_sublist _ _)
  · intro a ha hnot b hb
    rw [← hperm.mem_iff, ← List.take_append_drop k ranked, List.mem_append] at ha
    rw [← List.take_append_drop k ranked, List.pairwise_append] at hdesc
    exact hdesc.2.2 b hb a (ha.resolve_left hnot)

/-- Two rankings of the same hits. -/
theorem take_eq_iff_ties {place place' : String → Nat} {all ranked ranked' : List (String × S)}
    (hperm : ranked.Perm all) (hperm' : ranked'.Perm all) (h : ranked.Pairwise (Ahead place))
    (h' : ranked'.Pairwise (Ahead place')) (k : Nat) :
    ranked.take k = ranked'.take k ↔
      ∀ a ∈ all, ∀ b ∈ all, a.2 = b.2 → place a.1 < place b.1 →
        all.countP (fun c => Ahead place c a) < k → place' a.1 < place' b.1 := by
  have hties : ∀ {pl : String → Nat} {a b : String × S}, a.2 = b.2 → (Ahead pl a b ↔ pl a.1 < pl b.1) := by
    intro pl a b heq
    refine ⟨fun hab => ?_, fun hpl => .inr ⟨heq, hpl⟩⟩
    rcases hab with hlt | ⟨-, hpl⟩
    · exact (hlt.ne heq.symm).elim
    · exact hpl
  rw [Selection.take_eq_take_iff (hperm.trans hperm'.symm) h h' ahead_asymm ahead_asymm ahead_score
    ahead_score]
  constructor
  · intro hall a ha b hb heq hpl hcount
    have ha' := hperm.mem_iff.mpr ha
    have htake : a ∈ ranked.take k := by
      rw [Selection.mem_take_iff h ahead_asymm ha', hperm.countP_eq]
      exact hcount
    exact (hties heq).mp (hall a htake b (hperm.mem_iff.mpr hb) heq ((hties heq).mpr hpl))
  · intro hall a htake b hb heq hab
    have ha' := List.mem_of_mem_take htake
    rw [Selection.mem_take_iff h ahead_asymm ha', hperm.countP_eq] at htake
    exact (hties heq).mpr
      (hall a (hperm.mem_iff.mp ha') b (hperm.mem_iff.mp hb) heq ((hties heq).mp hab) htake)

/-! ## Searches of a file and a copy that mirrors it -/

section

variable {l : Loaded F} {R : List (Entry F)} {db : Db F} {collection : String}

theorem getD_ids (h : l.Holds R) {e : Entry F} {i : Nat} (he : (e, i) ∈ R.zipIdx) :
    l.ids.getD i "" = e.id := by
  rw [h.ids, List.getD_eq_getElem?_getD, List.getElem?_map, List.mem_zipIdx_iff_getElem?.mp he]
  rfl

theorem loaded_ahead (h : l.Holds R) :
    ((Selection.rank (loadedCands score q filter R)).map
      fun c => (l.ids.getD c.idx "", c.score)).Pairwise (Ahead l.placeOf) := by
  refine @rank_ahead S _ _ ?_ (fun i => l.ids.getD i "") l.placeOf fun c hc => ?_
  · rw [loadedCands_eq, List.map_map]
    have hnodup : (R.zipIdx.map Prod.snd).Nodup := by
      rw [List.zipIdx_map_snd]
      exact List.nodup_range'
    exact hnodup.sublist (List.filter_sublist.map _)
  · rw [loadedCands_eq] at hc
    obtain ⟨⟨e, i⟩, he, rfl⟩ := List.mem_map.mp hc
    have hmem := List.mem_of_mem_filter he
    dsimp only
    unfold Loaded.placeOf
    rw [getD_ids h hmem, (h.index e.id i).mpr]
    · rfl
    · rw [List.mem_zipIdx_iff_getElem?.mp hmem]
      rfl

theorem rowidOf_eq (hdb : db.WellFormed) {n : Nat} {row : Row F} (h : (n, row) ∈ db.rowsOf collection) :
    db.rowidOf collection row.id = n := by
  obtain ⟨hn, rfl⟩ := Db.mem_rowsOf.mp h
  have hfind := (Table.findKey_eq_some (k := row.key) hdb.unique).mpr ⟨hn, rfl⟩
  unfold Db.rowidOf
  rw [show (row.collection, row.id) = row.key from rfl, hfind]
  rfl

theorem stored_ahead (hdb : db.WellFormed) :
    ((Selection.rank (storedCands serde score q filter (db.rowsOf collection))).map
      fun c => (idAt (db.rowsOf collection) c.idx, c.score)).Pairwise (Ahead (db.rowidOf collection)) := by
  refine rank_ahead ?_ fun c hc => ?_
  · rw [storedCands_eq, List.map_map]
    have hnodup : ((db.rowsOf collection).map Prod.fst).Nodup := by
      rw [List.Nodup, List.pairwise_map]
      exact (Db.rowsOf_sorted db collection).imp fun hab => hab.ne
    exact hnodup.sublist (List.filter_sublist.map _)
  · rw [storedCands_eq] at hc
    obtain ⟨⟨n, row⟩, hrow, rfl⟩ := List.mem_map.mp hc
    have hmem := List.mem_of_mem_filter hrow
    dsimp only
    rw [idAt_eq (Db.rowsOf_sorted db collection) hmem, rowidOf_eq hdb hmem]

/-- The rows of a copy are the stored ones, in another order. -/
theorem holds_perm (h : l.Holds R)
    (hmem : ∀ e, e ∈ R ↔ ∃ r ∈ db.rowsOf collection,
      r.2.vector.length = l.dim ∧ Entry.ofStored serde r.2 = e)
    (hdb : db.WellFormed) :
    R.Perm (((db.rowsOf collection).filter fun r => r.2.vector.length = l.dim).map
      fun r => Entry.ofStored serde r.2) := by
  refine (List.perm_ext_iff_of_nodup h.nodup.of_map ?_).mpr fun e => ?_
  · refine List.Nodup.of_map Entry.id ?_
    rw [List.map_map]
    exact (hdb.ids_nodup collection).sublist (List.filter_sublist.map _)
  · rw [hmem, List.mem_map]
    simp only [List.mem_filter, decide_eq_true_eq, and_assoc]

theorem loaded_perm (h : l.Holds R)
    (hmem : ∀ e, e ∈ R ↔ ∃ r ∈ db.rowsOf collection,
      r.2.vector.length = l.dim ∧ Entry.ofStored serde r.2 = e)
    (hdb : db.WellFormed) (hq : q.length = l.dim) :
    ((Selection.rank (loadedCands score q filter R)).map
      fun c => (l.ids.getD c.idx "", c.score)).Perm (hits serde score db collection q filter) := by
  have hcands : (loadedCands score q filter R).map (fun c => (l.ids.getD c.idx "", c.score)) =
      (R.filter fun e => ¬ filtered filter e.metadata).map fun e => (e.id, score q e.vector) := by
    have hfirst : R.filter (fun e => ¬ filtered filter e.metadata) =
        (R.zipIdx.filter fun e => ¬ filtered filter e.1.metadata).map Prod.fst := by
      nth_rewrite 1 [← List.zipIdx_map_fst 0 R]
      rw [List.filter_map]
      rfl
    rw [loadedCands_eq, List.map_map, hfirst, List.map_map]
    refine List.map_congr_left fun e he => ?_
    rw [Function.comp_apply, Function.comp_apply]
    dsimp only
    rw [getD_ids h (List.mem_of_mem_filter he)]
  refine ((Selection.rank_perm _).map _).trans ?_
  rw [hcands]
  refine (((holds_perm h hmem hdb).filter _).map _).trans (List.Perm.of_eq ?_)
  rw [List.filter_map, List.filter_filter, List.map_map, hits_eq]
  congr 1
  refine List.filter_congr fun r _ => ?_
  rw [hq]
  simp [Entry.ofStored, Entry.ofRow]

theorem stored_perm :
    ((Selection.rank (storedCands serde score q filter (db.rowsOf collection))).map
      fun c => (idAt (db.rowsOf collection) c.idx, c.score)).Perm
        (hits serde score db collection q filter) := by
  refine ((Selection.rank_perm _).map _).trans (List.Perm.of_eq ?_)
  rw [storedCands_eq, hits_eq, List.map_map]
  refine List.map_congr_left fun r hr => ?_
  rw [Function.comp_apply]
  dsimp only
  rw [idAt_eq (Db.rowsOf_sorted db collection) (List.mem_of_mem_filter hr)]

/-- When the searches agree. -/
theorem scans_agree_iff (score : List F → List F → S) (filter : Option Meta)
    (hl : l.Mirrors serde (db.rowsOf collection)) (hdb : db.WellFormed) (hq : q.length = l.dim) (k : Nat) :
    (∃ out, scan_loaded score l q k filter = some out ∧
        scan_sqlite serde score db collection q k filter = some out ∧
        Best k (hits serde score db collection q filter) out) ↔
      0 < l.dim ∧ TiesInOrder l db collection (hits serde score db collection q filter) k := by
  obtain ⟨R, hR, hmem⟩ := hl
  rw [scan_sqlite_eq hdb]
  by_cases hpos : 0 < l.dim
  · rw [scan_loaded_eq hR hpos, and_iff_right hpos]
    refine Iff.trans ?_ (take_eq_iff_ties (loaded_perm hR hmem hdb hq) stored_perm (loaded_ahead hR)
      (stored_ahead hdb) k)
    constructor
    · rintro ⟨out, hout, hout', -⟩
      exact (Option.some.inj hout).trans (Option.some.inj hout').symm
    · intro heq
      exact ⟨_, rfl, congrArg some heq.symm,
        best_take (loaded_perm hR hmem hdb hq) (hits_nodup hdb) (loaded_ahead hR) k⟩
  · refine iff_of_false ?_ fun hand => hpos hand.1
    rintro ⟨out, hout, -⟩
    unfold scan_loaded at hout
    rw [if_pos (Nat.eq_zero_of_not_pos hpos)] at hout
    cases hout

end

/-! ## Histories -/

/-- The copy of the collection, if there is one, mirrors its rows. -/
structure Kept.Mirrored (serde : Serde) (collection : String) (s : Kept F) : Prop where
  db : s.db.WellFormed
  dim : ∀ l, s.copy = some l → s.db.collection_dim collection = some l.dim
  mirrors : ∀ l, s.copy = some l → l.Mirrors serde (s.db.rowsOf collection)

section

variable {collection : String}

theorem wellFormed_empty : (Db.empty : Db F).WellFormed := by
  refine ⟨Table.unique_empty _, fun n r hr => ?_⟩
  simp [Db.empty] at hr

theorem Kept.Mirrored.upsert {s : Kept F} (h : s.Mirrored serde collection) {name : String} {dim : Nat}
    {model : Option String} {rows : List (UpsertRow F)} (hdim : ∀ r ∈ rows, r.vector.length = dim) :
    (s.apply serde collection (.upsert name dim model rows)).Mirrored serde collection := by
  simp only [Kept.apply]
  cases hok : s.db.upsert name dim model rows with
  | error e => exact h
  | ok db =>
    have hcoll := Db.upsert_collection_dim hok
    refine ⟨h.db.upsert hok, fun l hl => ?_, fun l hl => ?_⟩
    · dsimp only at hl ⊢
      by_cases hname : name = collection
      · subst hname
        rw [if_pos rfl, Option.map_eq_some_iff] at hl
        obtain ⟨l', hl', rfl⟩ := hl
        obtain ⟨hsame, -⟩ := Db.upsert_ok hok
        rw [h.dim l' hl', Option.getD_some] at hsame
        rw [hcoll, if_pos rfl, pushRows_dim, hsame]
      · rw [if_neg hname] at hl
        rw [hcoll, if_neg (Ne.symm hname)]
        exact h.dim l hl
    · dsimp only at hl ⊢
      by_cases hname : name = collection
      · subst hname
        rw [if_pos rfl, Option.map_eq_some_iff] at hl
        obtain ⟨l', hl', rfl⟩ := hl
        obtain ⟨hsame, -⟩ := Db.upsert_ok hok
        rw [h.dim l' hl', Option.getD_some] at hsame
        subst hsame
        exact mirrors_upsert (h.mirrors l' hl') h.db hok hdim
      · rw [if_neg hname] at hl
        rw [Db.rowsOf_upsert_of_ne h.db hok hname]
        exact h.mirrors l hl

theorem Kept.Mirrored.delete {s : Kept F} (h : s.Mirrored serde collection) (name id : String) :
    (s.apply serde collection (.delete name id)).Mirrored serde collection := by
  simp only [Kept.apply]
  refine ⟨h.db.delete name id, fun l hl => ?_, fun l hl => ?_⟩
  · dsimp only at hl ⊢
    change s.db.collection_dim collection = _
    split_ifs at hl with hname
    · obtain ⟨l', hl', rfl⟩ := Option.map_eq_some_iff.mp hl
      rw [remove_dim]
      exact h.dim l' hl'
    · exact h.dim l hl
  · dsimp only at hl ⊢
    split_ifs at hl with hname
    · subst hname
      obtain ⟨l', hl', rfl⟩ := Option.map_eq_some_iff.mp hl
      exact mirrors_delete (h.mirrors l' hl') id
    · have hrows : (s.db.delete name id).1.rowsOf collection = s.db.rowsOf collection := by
        rw [Db.rowsOf_delete, List.filter_eq_self]
        intro r _
        simp [Ne.symm hname]
      rw [hrows]
      exact h.mirrors l hl

theorem Kept.Mirrored.apply {s : Kept F} (h : s.Mirrored serde collection) {op : Op F} (hop : op.Checked) :
    (s.apply serde collection op).Mirrored serde collection := by
  cases op with
  | upsert name dim model rows => exact h.upsert hop
  | delete name id => exact h.delete name id
  | load =>
    refine ⟨h.db, fun l hl => ?_, fun l hl => ?_⟩
    all_goals
      obtain ⟨dim, hdim, hload⟩ := Option.bind_eq_some_iff.mp hl
      obtain ⟨l', hl', rfl, hmirrors⟩ := load_eq serde collection h.db dim
      obtain rfl := Option.some.inj (hload.symm.trans hl')
    · exact hdim
    · exact hmirrors
  | unload =>
    refine ⟨h.db, fun l hl => ?_, fun l hl => ?_⟩
    · cases hl
    · cases hl

theorem Kept.Mirrored.run (serde : Serde) (collection : String) {ops : List (Op F)} (hops : ∀ op ∈ ops, op.Checked) :
    (Kept.run serde collection ops).Mirrored serde collection := by
  have hgeneral : ∀ (ops : List (Op F)) (s : Kept F), (∀ op ∈ ops, op.Checked) →
      s.Mirrored serde collection →
      (ops.foldl (Kept.apply serde collection) s).Mirrored serde collection := by
    intro ops
    induction ops with
    | nil => exact fun s _ hs => hs
    | cons op ops ih =>
      intro s hops hs
      exact ih _ (fun op' hop' => hops op' (List.mem_cons_of_mem _ hop'))
        (hs.apply (hops op List.mem_cons_self))
  refine hgeneral ops _ hops ⟨wellFormed_empty, ?_, ?_⟩
  · rintro l ⟨⟩
  · rintro l ⟨⟩

/-- After every history of a file, the search of a collection's copy and the search of its rows return
    the same list, the best of the matching rows, exactly if the copy can be searched at all and no tie
    among the best stands the other way round in it. -/
theorem searches_agree_iff {ops : List (Op F)} (hops : ∀ op ∈ ops, op.Checked) {l : Loaded F}
    (hl : (Kept.run serde collection ops).copy = some l) {q : List F} (hq : q.length = l.dim)
    (score : List F → List F → S) (filter : Option Meta) (k : Nat) :
    (∃ out, scan_loaded score l q k filter = some out ∧
        scan_sqlite serde score (Kept.run serde collection ops).db collection q k filter = some out ∧
        Best k (hits serde score (Kept.run serde collection ops).db collection q filter) out) ↔
      0 < l.dim ∧ TiesInOrder l (Kept.run serde collection ops).db collection
        (hits serde score (Kept.run serde collection ops).db collection q filter) k := by
  have h := Kept.Mirrored.run serde collection hops
  exact scans_agree_iff score filter (h.mirrors l hl) h.db hq k

end

/-! ## A tie that a deletion has turned round -/

def dot (q row : List Nat) : Nat :=
  ((q.zip row).map fun x => x.1 * x.2).sum

/-- Three rows, the last two of them with one vector, and the first one is deleted. -/
def turnedRound : List (Op Nat) :=
  let rows : List (UpsertRow Nat) :=
    [{ id := "a", text := "", vector := [1, 0], metadata_json := "\x7b\x7d" },
      { id := "b", text := "", vector := [0, 1], metadata_json := "\x7b\x7d" },
      { id := "c", text := "", vector := [0, 1], metadata_json := "\x7b\x7d" }]
  [.upsert "notes" 2 none rows, .load, .delete "notes" "a"]

theorem turnedRound_searches :
    ((Kept.run Serde.compact "notes" turnedRound).copy.map fun l =>
        scan_loaded dot l [0, 1] 1 none) = some (some [("c", 1)]) ∧
      scan_sqlite Serde.compact dot (Kept.run Serde.compact "notes" turnedRound).db "notes" [0, 1] 1 none =
        some [("b", 1)] := by
  decide

theorem turnedRound_checked : ∀ op ∈ turnedRound, op.Checked := by
  intro op hop
  simp only [turnedRound, List.mem_cons, List.not_mem_nil, or_false] at hop
  rcases hop with rfl | rfl | rfl
  · intro r hr
    simp only [List.mem_cons, List.not_mem_nil, or_false] at hr
    rcases hr with rfl | rfl | rfl
    · rfl
    · rfl
    · rfl
  · trivial
  · trivial

theorem turnedRound_copy :
    ∃ l, (Kept.run Serde.compact "notes" turnedRound).copy = some l ∧ l.dim = 2 := by
  have hdim : ((Kept.run Serde.compact "notes" turnedRound).copy.map Loaded.dim) = some 2 := by
    decide
  obtain ⟨l, hl, hl'⟩ := Option.map_eq_some_iff.mp hdim
  exact ⟨l, hl, hl'⟩

theorem searches_agree_turnedRound :
    ∃ l, (Kept.run Serde.compact "notes" turnedRound).copy = some l ∧
      ((∃ out, scan_loaded dot l [0, 1] 2 none = some out ∧
          scan_sqlite Serde.compact dot (Kept.run Serde.compact "notes" turnedRound).db "notes" [0, 1] 2
            none = some out ∧
          Best 2 (hits Serde.compact dot (Kept.run Serde.compact "notes" turnedRound).db "notes" [0, 1]
            none) out) ↔
        0 < l.dim ∧ TiesInOrder l (Kept.run Serde.compact "notes" turnedRound).db "notes"
          (hits Serde.compact dot (Kept.run Serde.compact "notes" turnedRound).db "notes" [0, 1] none) 2) := by
  obtain ⟨l, hl, hdim⟩ := turnedRound_copy
  refine ⟨l, hl, searches_agree_iff turnedRound_checked hl ?_ dot none 2⟩
  rw [hdim]
  rfl

/-- The best row of a collection is not the same one in memory and in the file. -/
theorem searches_differ :
    ¬ ∀ (ops : List (Op Nat)), (∀ op ∈ ops, op.Checked) →
      ∀ l, (Kept.run Serde.compact "notes" ops).copy = some l →
      ∀ (q : List Nat) (k : Nat), q.length = l.dim → 1 ≤ k →
      scan_loaded dot l q k none =
        scan_sqlite Serde.compact dot (Kept.run Serde.compact "notes" ops).db "notes" q k none := by
  intro hall
  obtain ⟨l, hl, hdim⟩ := turnedRound_copy
  have hsame := hall turnedRound turnedRound_checked l hl [0, 1] 1 (by rw [hdim]; rfl) le_rfl
  obtain ⟨hloaded, hstored⟩ := turnedRound_searches
  rw [hl, Option.map_some, Option.some.injEq] at hloaded
  rw [hloaded, hstored] at hsame
  exact absurd hsame (by decide)

end VectorDb

/-!
## The listed collections

A prefix is not escaped, so it also lists what it is a pattern of.
-/

namespace VectorDb

open Like

variable {F : Type}

variable {pre name : List Char}

theorem like_eq_true {s pattern : List Char} :
    like '\\' s pattern = true ↔ ∃ ts, tokens '\\' pattern = some ts ∧ covers ts s = true := by
  rw [like, Option.any_eq_true]

theorem like_append_percent : like '\\' name (pre ++ ['%']) = true ↔ Describes pre name := by
  cases hpre : tokens '\\' pre with
  | some ts =>
    have htokens : tokens '\\' (pre ++ ['%']) = some (ts ++ [Token.any]) := by
      rw [tokens_append hpre]
      rfl
    rw [like, htokens, Option.any_some, covers_append_any]
    constructor
    · rintro ⟨kept, hkept, hcovers⟩
      exact .inl ⟨kept, hkept, like_eq_true.mpr ⟨ts, hpre, hcovers⟩⟩
    · rintro (⟨kept, hkept, hlike⟩ | ⟨p, n, rfl, -, hlike⟩)
      · obtain ⟨ts', hts, hcovers⟩ := like_eq_true.mp hlike
        obtain rfl := Option.some.inj (hpre.symm.trans hts)
        exact ⟨kept, hkept, hcovers⟩
      · obtain ⟨ts', hts, -⟩ := like_eq_true.mp hlike
        rw [tokens_append hts] at hpre
        cases hpre
  | none =>
    obtain ⟨p, ts, rfl, hts⟩ := exists_of_tokens_eq_none hpre
    have htokens : tokens '\\' (p ++ ['\\'] ++ ['%']) = some (ts ++ [.lit '%']) := by
      rw [tokens_append_escape hts]
      rfl
    rw [like, htokens, Option.any_some, covers_append]
    constructor
    · rintro ⟨n, last, rfl, hn, hlast⟩
      rw [covers_singleton rfl] at hlast
      exact .inr ⟨p, n, rfl, congrArg (n ++ ·) hlast, like_eq_true.mpr ⟨ts, hts, hn⟩⟩
    · rintro (⟨kept, -, hlike⟩ | ⟨p', n, hp, rfl, hlike⟩)
      · obtain ⟨ts', hts', -⟩ := like_eq_true.mp hlike
        rw [hpre] at hts'
        cases hts'
      · obtain ⟨rfl, -⟩ := List.append_inj' hp rfl
        obtain ⟨ts', hts', hcovers⟩ := like_eq_true.mp hlike
        obtain rfl := Option.some.inj (hts.symm.trans hts')
        exact ⟨n, ['%'], rfl, hcovers, rfl⟩

/-! ## The call -/

/-- What `vec_list` answers. -/
def ListExact (db : Db F) (pre : String) : Prop :=
  ∃ names, db.vec_list pre = .obj [("collections", .arr (names.map .str))] ∧
    Listing (· ∈ db.collections) pre names

theorem listExact_iff_listing (db : Db F) (pre : String) :
    ListExact db pre ↔ Listing (· ∈ db.collections) pre (db.collection_names pre) := by
  have hinj : Function.Injective (List.map Json.str) :=
    List.map_injective_iff.mpr fun a b h => Json.str.inj h
  constructor
  · rintro ⟨names, hnames, hlist⟩
    simp only [Db.vec_list, Json.obj.injEq, List.cons.injEq, Prod.mk.injEq, Json.arr.injEq,
      true_and, and_true] at hnames
    rw [hinj hnames]
    exact hlist
  · exact fun hlist => ⟨_, rfl, hlist⟩

theorem collection_names_eq (db : Db F) (pre : String) :
    db.collection_names pre = (db.collections.selectWhere fun name _ =>
      like '\\' name.toList (pre.toList ++ ['%'])).map Prod.fst := by
  rw [Db.collection_names]
  split_ifs with hempty
  · have hnil : pre.toList = [] := by
      rw [String.isEmpty_iff] at hempty
      rw [hempty]
      rfl
    have hall : ∀ name : List Char, like '\\' name ([] ++ ['%']) = true := fun name =>
      like_append_percent.mpr (.inl ⟨[], List.nil_prefix, rfl⟩)
    rw [hnil, Table.selectWhere]
    simp only [hall, List.filter_true]
  · rfl

theorem listing_collection_names_iff (db : Db F) (pre : String) :
    Listing (· ∈ db.collections) pre (db.collection_names pre) ↔
      ∀ name ∈ db.collections,
        (Describes pre.toList name.toList → pre.toList <+: name.toList) ∧
        ('\\' ∈ pre.toList → pre.toList <+: name.toList → Describes pre.toList name.toList) := by
  rw [collection_names_eq,
    Table.listing_iff _ (fun name => like '\\' name.toList (pre.toList ++ ['%']))]
  refine forall₂_congr fun name _ => ?_
  rw [like_append_percent]
  constructor
  · exact fun h => ⟨h.mp, fun _ => h.mpr⟩
  · rintro ⟨hexact, hescaped⟩
    refine ⟨hexact, fun hpre => ?_⟩
    by_cases hmem : '\\' ∈ pre.toList
    · exact hescaped hmem hpre
    · exact .inl ⟨_, hpre, like_self hmem⟩

/-- The collections whose names begin with the prefix are listed, if it describes no other name and,
    should it hold a backslash, describes these. -/
theorem list_exact_iff (db : Db F) (pre : String) :
    ListExact db pre ↔
      ∀ name ∈ db.collections,
        (Describes pre.toList name.toList → pre.toList <+: name.toList) ∧
        ('\\' ∈ pre.toList → pre.toList <+: name.toList → Describes pre.toList name.toList) := by
  rw [listExact_iff_listing, listing_collection_names_iff]

/-- The underscore of a prefix lists a name with another letter in its place. -/
theorem underscore_lists_letter :
    ¬ ListExact { (Db.empty : Db Unit) with
      collections := Std.ExtTreeMap.empty.insert "agents" { dim := 3, model := "" } } "agent_" := by
  rw [listExact_iff_listing, listing_collection_names_iff]
  intro h
  have hmem : "agents" ∈ (Std.ExtTreeMap.empty.insert "agents" { dim := 3, model := "" } :
      Table String Collection) := Std.ExtTreeMap.mem_insert_self
  have hdescribes : Describes "agent_".toList "agents".toList :=
    .inl ⟨"agents".toList, List.prefix_refl _, by decide⟩
  have hpre := (h "agents" hmem).1 hdescribes
  revert hpre
  decide

end VectorDb
