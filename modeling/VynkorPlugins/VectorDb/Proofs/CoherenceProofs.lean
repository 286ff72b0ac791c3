import VynkorPlugins.VectorDb.Proofs.LockProofs
import VynkorPlugins.VectorDb.Proofs.ReembedProofs

/-!
# The cache is coherent

A copy mirrors the rows of its collection, unless the writer that holds the writer lock has committed and
has not updated it yet: then the update will make it mirror them again. A load mirrors the rows that
have come so far, as the writer lock keeps all writers away.
-/

namespace VectorDb

variable {F : Type} {serde : Serde} {db db' : Db F} {collection : String} {l : Loaded F}

/-! ## The row of an id -/

/-- A copy has the rows that it holds. -/
theorem Loaded.Holds.rowOf {R : List (Entry F)} (h : l.Holds R) {e : Entry F} (he : e ∈ R) :
    l.rowOf e.id = some (e.vector, e.metadata) := by
  obtain ⟨i, hi, hget⟩ := List.getElem_of_mem he
  have hsome : R[i]? = some e := List.getElem?_eq_some_iff.mpr ⟨hi, hget⟩
  have hindex : l.index[e.id]? = some i := by
    rw [h.index, hsome]
    rfl
  have hdim := h.dims e he
  unfold Loaded.rowOf
  rw [hindex, Option.map_some, h.data, drop_flatMap h.dims, h.metadata, List.drop_eq_getElem_cons hi, hget,
    List.flatMap_cons, List.take_append_of_le_length hdim.ge, List.take_of_length_le hdim.le]
  simp [hsome]

theorem Loaded.Holds.rowOf_none {R : List (Entry F)} (h : l.Holds R) {id : String} (hid : id ∉ R.map Entry.id) :
    l.rowOf id = none := by
  unfold Loaded.rowOf
  rw [Option.map_eq_none_iff, h.place, place_eq_none]
  exact hid

/-- A copy that mirrors the rows of a collection has the same row for every id. -/
theorem rowOf_eq (hdb : db.WellFormed) (h : l.Mirrors serde (db.rowsOf collection)) (id : String) :
    l.rowOf id = db.rowOf serde collection l.dim id := by
  obtain ⟨R, hR, hmem⟩ := h
  unfold Db.rowOf
  cases hrow : ((db.vectors.findKey Row.key (collection, id)).filter fun r => r.2.vector.length = l.dim) with
  | none =>
    refine hR.rowOf_none fun hid => ?_
    obtain ⟨e, he, rfl⟩ := List.mem_map.mp hid
    obtain ⟨⟨n, r⟩, hr, hdim, rfl⟩ := (hmem e).mp he
    obtain ⟨hn, hcoll⟩ := Db.mem_rowsOf.mp hr
    have hfind : db.vectors.findKey Row.key (collection, r.id) = some (n, r) :=
      (Table.findKey_eq_some hdb.unique).mpr ⟨hn, Prod.ext hcoll rfl⟩
    rw [Entry.ofStored_id, hfind, Option.filter_some, if_pos (by simpa using hdim)] at hrow
    cases hrow
  | some nr =>
    obtain ⟨n, r⟩ := nr
    obtain ⟨hfind, hdim⟩ := Option.filter_eq_some_iff.mp hrow
    obtain ⟨hn, hkey⟩ := (Table.findKey_eq_some hdb.unique).mp hfind
    have hid : r.id = id := congrArg Prod.snd hkey
    have hr : (n, r) ∈ db.rowsOf collection := Db.mem_rowsOf.mpr ⟨hn, congrArg Prod.fst hkey⟩
    have he := (hmem (Entry.ofStored serde r)).mpr ⟨(n, r), hr, of_decide_eq_true hdim, rfl⟩
    rw [← hid, ← Entry.ofStored_id serde r, hR.rowOf he]
    rfl

/-! ## Collections that a transaction leaves alone -/

/-- Two files have the same collection. -/
structure SameCollection (collection : String) (db db' : Db F) : Prop where
  dim : db'.collection_dim collection = db.collection_dim collection
  rows : db'.rowsOf collection = db.rowsOf collection

theorem sameCollection_upsert (hdb : db.WellFormed) {name : String} {dim : Nat} {model : Option String}
    {rows : List (UpsertRow F)} (h : db.upsert name dim model rows = .ok db') (hne : name ≠ collection) :
    SameCollection collection db db' := by
  refine ⟨?_, Db.rowsOf_upsert_of_ne hdb h hne⟩
  rw [Db.upsert_collection_dim h, if_neg (Ne.symm hne)]

theorem sameCollection_delete (db : Db F) {name id : String} (hne : name ≠ collection) :
    SameCollection collection db (db.delete name id).1 := by
  refine ⟨rfl, ?_⟩
  rw [Db.rowsOf_delete, List.filter_eq_self]
  intro r _
  simp [Ne.symm hne]

theorem sameCollection_swap {name model : String} {n : Nat}
    (h : db.swap_reembedded name model = .ok (db', .Done n)) (hne : name ≠ collection) :
    SameCollection collection db db' := by
  unfold Db.swap_reembedded at h
  dsimp only at h
  split_ifs at h with hstale hnone
  · cases h
  · obtain ⟨rfl, -⟩ := Prod.mk.inj (Except.ok.inj h)
    constructor
    · unfold Db.collection_dim
      dsimp only
      rw [Std.ExtTreeMap.getElem?_modify, if_neg]
      exact fun heq => hne (Std.LawfulEqCmp.eq_of_compare heq)
    · refine Db.rows_ext (Db.rowsOf_sorted _ _) (Db.rowsOf_sorted _ _) ?_
      rintro ⟨m, r⟩
      rw [Db.mem_rowsOf, Db.mem_rowsOf]
      dsimp only
      rw [Std.ExtTreeMap.getElem?_map, Table.getElem?_deleteWhere, Option.map_eq_some_iff]
      constructor
      · rintro ⟨⟨old, hold, rfl⟩, hcoll⟩
        split_ifs at hcoll ⊢ with hname
        · exact (hne (hname.symm.trans hcoll)).elim
        · exact ⟨(Option.filter_eq_some_iff.mp hold).1, hcoll⟩
      · rintro ⟨hr, hcoll⟩
        have hname : r.collection ≠ name := fun hname => hne (hname.symm.trans hcoll)
        refine ⟨⟨r, Option.filter_eq_some_iff.mpr ⟨hr, ?_⟩, if_neg hname⟩, hcoll⟩
        simp [hname]

namespace VecCache

open Async Transition

/-! ## Copies and files -/

/-- A copy mirrors a collection. -/
structure Mirrored (serde : Serde) (db : Db F) (collection : String) (l : Loaded F) : Prop where
  dim : db.collection_dim collection = some l.dim
  mirrors : l.Mirrors serde (db.rowsOf collection)

theorem Mirrored.same (h : Mirrored serde db collection l) (hsame : SameCollection collection db db') :
    Mirrored serde db' collection l :=
  ⟨hsame.dim.trans h.dim, hsame.rows ▸ h.mirrors⟩

theorem Mirrored.coherent (h : Mirrored serde db collection l) (hdb : db.WellFormed) :
    Coherent serde db collection l :=
  ⟨h.dim, rowOf_eq hdb h.mirrors⟩

/-- The update of a copy that a committed transaction has left to do. -/
def Todo.apply (serde : Serde) (l : Loaded F) : Todo F → Option (Loaded F)
  | .push rows => some (l.pushRows serde rows)
  | .remove id => some (l.remove id).1
  | .drop => none

/-- What a load or a write knows about the file and the copy. -/
def Phase.Fact (serde : Serde) (db : Db F) (collection : String) (state : Option (Loaded F)) :
    Phase F → Prop
  | .idle => True
  | .vacant => state = none
  | .loading last l =>
    state = none ∧ db.collection_dim collection = some l.dim ∧ l.Mirrors serde (db.rowsTo collection last)
  | .loaded l => state = none ∧ Mirrored serde db collection l
  | .committed todo =>
    ∀ l ∈ state, ∀ l' ∈ todo.apply serde l, Mirrored serde db collection l'

variable {state : Option (Loaded F)} {phase : Phase F}

theorem Phase.Fact.empty (h : phase.Fact serde db collection state) (hempty : phase.empty) : state = none := by
  cases phase with
  | idle | committed => exact hempty.elim
  | vacant => exact h
  | loading | loaded => exact h.1

theorem Phase.Fact.same (h : phase.Fact serde db collection state)
    (hsame : SameCollection collection db db') : phase.Fact serde db' collection state := by
  cases phase with
  | idle | vacant => exact h
  | loading last l =>
    obtain ⟨hnone, hdim, hmirrors⟩ := h
    refine ⟨hnone, hsame.dim.trans hdim, ?_⟩
    unfold Db.rowsTo at hmirrors ⊢
    rwa [hsame.rows]
  | loaded l => exact ⟨h.1, h.2.same hsame⟩
  | committed todo => exact fun l hl l' hl' => (h l hl l' hl').same hsame

/-- What is known does not depend on a copy. -/
theorem Phase.Fact.taken (h : phase.Fact serde db collection state) :
    phase.Fact serde db collection none := by
  cases phase with
  | idle => trivial
  | vacant => exact rfl
  | loading | loaded => exact ⟨rfl, h.2⟩
  | committed todo => exact nofun

theorem Phase.Fact.found (h : phase.Fact serde db collection state) :
    (phase.found state).Fact serde db collection state := by
  unfold Phase.found
  split
  · exact rfl
  · exact h

theorem Phase.Fact.dropped (h : phase.Fact serde db collection state) :
    phase.dropped.Fact serde db collection state := by
  unfold Phase.dropped
  split
  · trivial
  · exact h

/-- A load begins with no row. -/
theorem Phase.Fact.begin (h : phase.Fact serde db collection state) (hdb : db.WellFormed)
    {dim : Except String (Option Nat)} (hdim : ∀ d, dim = .ok d → d = db.collection_dim collection) :
    (phase.begin dim).Fact serde db collection state := by
  unfold Phase.begin
  split
  · refine ⟨h, (hdim _ rfl).symm, ?_⟩
    rw [hdb.rowsTo_zero]
    exact mirrors_new _
  · exact h

/-- A load has come to the next page, or to the end. -/
theorem Phase.Fact.page (h : phase.Fact serde db collection state) (hdb : db.WellFormed)
    {rows : Except String (List (Nat × Row F))} (hrows : ∀ rows' last l, rows = .ok rows' →
      phase = .loading last l → rows' = db.page collection last) :
    (phase.page serde rows).Fact serde db collection state := by
  unfold Phase.page
  split
  · rename_i last l rows'
    obtain rfl := hrows _ _ _ rfl rfl
    obtain ⟨hnone, hdim, hmirrors⟩ := h
    split
    · rename_i hlast
      refine ⟨hnone, hdim, ?_⟩
      rwa [Db.rowsTo_all hlast] at hmirrors
    · rename_i row hlast
      refine ⟨hnone, ?_, mirrors_next hdb hmirrors hlast⟩
      rw [foldl_loadRow_dim, hdim]
  · exact h

/-! ## Transactions -/

theorem mirrored_upsert (h : Mirrored serde db collection l) (hdb : db.WellFormed) {dim : Nat}
    {model : Option String} {rows : List (UpsertRow F)} (hok : db.upsert collection dim model rows = .ok db')
    (hrows : ∀ r ∈ rows, r.vector.length = dim) : Mirrored serde db' collection (l.pushRows serde rows) := by
  have hdim : dim = l.dim := by
    have hok := (Db.upsert_ok hok).1
    rw [h.dim] at hok
    exact hok.symm
  subst hdim
  refine ⟨?_, mirrors_upsert h.mirrors hdb hok hrows⟩
  rw [Db.upsert_collection_dim hok, if_pos rfl, pushRows_dim]

theorem mirrored_delete (h : Mirrored serde db collection l) (id : String) :
    Mirrored serde (db.delete collection id).1 collection (l.remove id).1 := by
  refine ⟨?_, mirrors_delete h.mirrors id⟩
  rw [remove_dim]
  exact h.dim

/-- What a transaction on a collection leaves to do is what the file has been changed by. -/
structure Commits (serde : Serde) (db db' : Db F) (collection : String) (todo : Todo F) : Prop where
  wellFormed : db.WellFormed → db'.WellFormed
  same : db.WellFormed → ∀ name, name ≠ collection → SameCollection name db db'
  update : db.WellFormed → ∀ l, Mirrored serde db collection l →
    ∀ l' ∈ todo.apply serde l, Mirrored serde db' collection l'

theorem commits_upsert {dim : Nat} {model : Option String} {rows : List (UpsertRow F)}
    (hok : db.upsert collection dim model rows = .ok db') (hrows : ∀ r ∈ rows, r.vector.length = dim) :
    Commits serde db db' collection (.push rows) where
  wellFormed hdb := hdb.upsert hok
  same hdb _ hne := sameCollection_upsert hdb hok hne.symm
  update hdb l hl l' hl' := by
    obtain rfl := Option.some.inj hl'
    exact mirrored_upsert hl hdb hok hrows

theorem commits_delete (db : Db F) (collection id : String) :
    Commits serde db (db.delete collection id).1 collection (.remove id) where
  wellFormed hdb := hdb.delete collection id
  same _ _ hne := sameCollection_delete db hne.symm
  update _ l hl l' hl' := by
    obtain rfl := Option.some.inj hl'
    exact mirrored_delete hl id

theorem commits_swap {model : String} {n : Nat}
    (h : db.swap_reembedded collection model = .ok (db', .Done n)) :
    Commits serde db db' collection .drop where
  wellFormed := (swap_done h).2.2.1
  same _ _ hne := sameCollection_swap h hne.symm
  update _ _ _ _ := nofun

/-! ## The invariant -/

/-- The copies are those of the files, as far as no write is on its way to them. -/
structure Fresh (serde : Serde) (g : Nat → Hold F) (w : World F) : Prop where
  files : ∀ caller, (w.files caller).WellFormed
  /-- Loads and writes are under the writer lock. -/
  writer : ∀ i, (g i).phase ≠ .idle → (g i).writer = true
  fact : ∀ i, (g i).phase.Fact serde (w.files (g i).key.1) (g i).key.2 (w.slots (g i).key).state
  coherent : ∀ key, w.behind key = false → ∀ l ∈ (w.slots key).state, Mirrored serde (w.files key.1) key.2 l
  behind : ∀ key, w.behind key = true → ∃ i todo, (g i).key = key ∧ (g i).phase = .committed todo

variable {c : CacheConfig} {g : Nat → Hold F} {w w' : World F} {i : Nat} {s : Hold F} {key : Key}

/-- A writer lock has one owner. -/
theorem Locks.owner (h : Locks g w) {j : Nat} (hi : (g i).writer = true) (hj : (g j).writer = true)
    (hkey : (g j).key = (g i).key) : j = i := by
  have hown := h.writer j hj
  rw [hkey, h.writer i hi] at hown
  exact (Option.some.inj hown).symm

namespace Fresh

/-- A slot whose writer lock is held by an operation is in no phase of another. -/
theorem idle_of_ne (h : Fresh serde g w) (hl : Locks g w) (hwriter : (g i).writer = true) {j : Nat} (hji : j ≠ i)
    (hkey : (g j).key = (g i).key) : (g j).phase = .idle := by
  by_contra hphase
  exact hji (hl.owner hwriter (h.writer j hphase) hkey)

/-- The slot of a writer that has not committed is up to date. -/
theorem not_behind (h : Fresh serde g w) (hl : Locks g w) (hwriter : (g i).writer = true)
    (hphase : ∀ todo, (g i).phase ≠ .committed todo) : w.behind (g i).key = false := by
  by_contra hbehind
  obtain ⟨j, todo, hkey, hj⟩ := h.behind _ (Bool.eq_true_of_not_eq_false hbehind)
  by_cases hji : j = i
  · exact hphase todo (hji ▸ hj)
  · rw [h.idle_of_ne hl hwriter hji hkey] at hj
    cases hj

/-- An operation that changes neither a copy nor a file. -/
theorem still (h : Fresh serde g w) (hfiles : w'.files = w.files)
    (hstate : ∀ k, (w'.slots k).state = (w.slots k).state) (hbehind : w'.behind = w.behind)
    (hkey : s.key = (g i).key) (hwriter : s.phase ≠ .idle → s.writer = true)
    (hfact : s.phase.Fact serde (w.files (g i).key.1) (g i).key.2 (w.slots (g i).key).state)
    (hcommitted : ∀ todo, (g i).phase = .committed todo → s.phase = .committed todo) :
    Fresh serde (Function.update g i s) w' where
  files := hfiles ▸ h.files
  writer j hj := by
    rw [Function.update_apply] at hj ⊢
    split_ifs at hj ⊢
    · exact hwriter hj
    · exact h.writer j hj
  fact j := by
    rw [hfiles, hstate, Function.update_apply]
    split_ifs
    · rwa [hkey]
    · exact h.fact j
  coherent k hk l hmem := by
    rw [hfiles]
    rw [hstate] at hmem
    exact h.coherent k (hbehind ▸ hk) l hmem
  behind k hk := by
    obtain ⟨j, todo, hj, hphase⟩ := h.behind k (hbehind ▸ hk)
    refine ⟨j, todo, ?_⟩
    rw [Function.update_apply]
    split_ifs with hji
    · exact ⟨by rw [hkey, ← hji, hj], hcommitted todo (hji ▸ hphase)⟩
    · exact ⟨hj, hphase⟩

/-- What an operation holds of the locks and the counters says nothing about the copies. -/
theorem quiet (h : Fresh serde g w) (hfiles : w'.files = w.files)
    (hstate : ∀ k, (w'.slots k).state = (w.slots k).state) (hbehind : w'.behind = w.behind)
    (hkey : s.key = (g i).key) (hwriter : s.writer = (g i).writer) (hphase : s.phase = (g i).phase) :
    Fresh serde (Function.update g i s) w' := by
  refine h.still hfiles hstate hbehind hkey (fun hidle => ?_) ?_ fun todo htodo => hphase.trans htodo
  · rw [hwriter]
    exact h.writer i (hphase ▸ hidle)
  · rw [hphase]
    exact h.fact i

theorem same (h : Fresh serde g w) : Fresh serde (Function.update g i (g i)) w := by
  rwa [Function.update_eq_self]

/-- A slot whose copy stays. -/
theorem setSlot (h : Fresh serde g w) {slot : Slot F} (hslot : slot.state = (w.slots key).state)
    (hkey : s.key = (g i).key) (hwriter : s.writer = (g i).writer) (hphase : s.phase = (g i).phase) :
    Fresh serde (Function.update g i s) (w.setSlot key slot) := by
  refine h.quiet rfl (fun k => ?_) rfl hkey hwriter hphase
  rw [setSlot_slots]
  split_ifs with hk
  · rw [hk, hslot]
  · rfl

/-- A load goes on. -/
theorem setPhase (h : Fresh serde g w) {phase : Phase F} (hwriter : phase ≠ .idle → (g i).writer = true)
    (hfact : phase.Fact serde (w.files (g i).key.1) (g i).key.2 (w.slots (g i).key).state)
    (hcommitted : ∀ todo, (g i).phase = .committed todo → phase = .committed todo) :
    Fresh serde (Function.update g i ((g i).setPhase phase)) w :=
  h.still rfl (fun _ => rfl) rfl rfl hwriter hfact hcommitted

/-- A copy that is dropped. -/
theorem take (h : Fresh serde g w) {slot : Slot F} (hslot : slot.state = none) (hkey : s.key = (g i).key)
    (hwriter : s.writer = (g i).writer)
    (hphase : s.phase = if key = (g i).key then (g i).phase.dropped else (g i).phase) :
    Fresh serde (Function.update g i s) ((w.setSlot key slot).setBehind key false) := by
  have hstate : ∀ k, (((w.setSlot key slot).setBehind key false).slots k).state =
      if k = key then none else (w.slots k).state := by
    intro k
    change ((w.setSlot key slot).slots k).state = _
    rw [setSlot_slots]
    split_ifs
    · exact hslot
    · rfl
  have hbehind : ∀ k, ((w.setSlot key slot).setBehind key false).behind k = if k = key then false else w.behind k :=
    fun k => Function.update_apply ..
  have hidle : s.phase ≠ .idle → (g i).phase ≠ .idle := by
    intro hne hidle
    rw [hphase, hidle] at hne
    exact hne (ite_self _)
  constructor
  · exact h.files
  · intro j hj
    rw [Function.update_apply] at hj ⊢
    split_ifs at hj ⊢
    · rw [hwriter]
      exact h.writer i (hidle hj)
    · exact h.writer j hj
  · intro j
    rw [hstate]
    by_cases hji : j = i
    · subst hji
      rw [Function.update_self, hkey, hphase]
      by_cases hk : key = (g j).key
      · rw [if_pos hk, if_pos hk.symm]
        exact (h.fact j).taken.dropped
      · rw [if_neg hk, if_neg (Ne.symm hk)]
        exact h.fact j
    · rw [Function.update_of_ne hji]
      split_ifs
      · exact (h.fact j).taken
      · exact h.fact j
  · intro k hk l hl
    rw [hstate] at hl
    rw [hbehind] at hk
    split_ifs at hl hk
    · cases hl
    · exact h.coherent k hk l hl
  · intro k hk
    rw [hbehind] at hk
    split_ifs at hk with hne
    obtain ⟨j, todo, hj, htodo⟩ := h.behind k hk
    refine ⟨j, todo, ?_⟩
    rw [Function.update_apply]
    split_ifs with hji
    · subst hji
      rw [hkey, hphase, if_neg fun hkk => hne (hj.symm.trans hkk.symm)]
      exact ⟨hj, htodo⟩
    · exact ⟨hj, htodo⟩

/-- A copy that is brought up to date. -/
theorem update (h : Fresh serde g w) (hl : Locks g w) (hkey : key = (g i).key) {todo : Todo F}
    (hphase : (g i).phase = .committed todo) {f : Loaded F → Loaded F}
    (hf : ∀ l, todo.apply serde l = some (f l)) (hs : s.key = (g i).key) (hidle : s.phase = .idle) :
    Fresh serde (Function.update g i s) (w.update key f).2 := by
  have hwriter : (g i).writer = true := h.writer i (by rw [hphase]; exact nofun)
  have hstate : ∀ k, ((w.update key f).2.slots k).state =
      if k = key then (w.slots key).state.map f else (w.slots k).state := by
    intro k
    change ((w.setSlot key _).slots k).state = _
    rw [setSlot_slots]
    split_ifs
    · rfl
    · rfl
  have hbehind : ∀ k, (w.update key f).2.behind k = if k = key then false else w.behind k :=
    fun k => Function.update_apply ..
  constructor
  · exact h.files
  · intro j hj
    rw [Function.update_apply] at hj ⊢
    split_ifs at hj ⊢
    · exact (hj hidle).elim
    · exact h.writer j hj
  · intro j
    rw [hstate, Function.update_apply]
    split_ifs with hji hk hk
    · rw [hidle]
      trivial
    · rw [hidle]
      trivial
    · rw [h.idle_of_ne hl hwriter hji (hk.trans hkey)]
      trivial
    · exact h.fact j
  · intro k hk l hmem
    rw [hstate] at hmem
    rw [hbehind] at hk
    split_ifs at hmem hk with hkk
    · obtain ⟨old, hold, rfl⟩ := Option.map_eq_some_iff.mp hmem
      have hfact := h.fact i
      rw [hphase, ← hkey] at hfact
      rw [hkk]
      exact hfact old hold _ (hf old)
    · exact h.coherent k hk l hmem
  · intro k hk
    rw [hbehind] at hk
    split_ifs at hk with hne
    obtain ⟨j, todo, hj, htodo⟩ := h.behind k hk
    have hji : j ≠ i := by
      rintro rfl
      exact hne (hj.symm.trans hkey.symm)
    refine ⟨j, todo, ?_⟩
    rw [Function.update_of_ne hji]
    exact ⟨hj, htodo⟩

/-- A loaded copy that is installed. -/
theorem install (h : Fresh serde g w) (hkey : key = (g i).key) (hphase : (g i).phase = .loaded l)
    {slot : Slot F} (hslot : slot.state = some l) {reservations : Nat → Nat} (hs : s.key = (g i).key)
    (hidle : s.phase = .idle) (hl : Locks g w) :
    Fresh serde (Function.update g i s) { w.setSlot key slot with reservations } := by
  have hwriter : (g i).writer = true := h.writer i (by rw [hphase]; exact nofun)
  constructor
  · exact h.files
  · intro j hj
    rw [Function.update_apply] at hj ⊢
    split_ifs at hj ⊢
    · exact (hj hidle).elim
    · exact h.writer j hj
  · intro j
    rw [Function.update_apply]
    split_ifs with hji
    · rw [hidle]
      trivial
    · by_cases hk : (g j).key = key
      · rw [h.idle_of_ne hl hwriter hji (hk.trans hkey)]
        trivial
      · dsimp only
        rw [setSlot_slots, if_neg hk]
        exact h.fact j
  · intro k hk l' hmem
    dsimp only at hmem
    rw [setSlot_slots] at hmem
    split_ifs at hmem with hkk
    · obtain rfl := Option.some.inj (hslot.symm.trans hmem)
      have hfact := h.fact i
      rw [hphase, ← hkey] at hfact
      rw [hkk]
      exact hfact.2
    · exact h.coherent k hk l' hmem
  · intro k hk
    obtain ⟨j, todo, hj, htodo⟩ := h.behind k hk
    have hji : j ≠ i := by
      rintro rfl
      rw [hphase] at htodo
      cases htodo
    refine ⟨j, todo, ?_⟩
    rw [Function.update_of_ne hji]
    exact ⟨hj, htodo⟩

/-- A transaction that is committed. -/
theorem commit (h : Fresh serde g w) (hl : Locks g w) (hkey : key = (g i).key)
    (hwriter : (g i).writer = true) (hphase : (g i).phase = .idle) {todo : Todo F}
    (hcommits : Commits serde (w.files key.1) db' key.2 todo) :
    Fresh serde (Function.update g i ((g i).setPhase (.committed todo)))
      ((w.setFile key db').setBehind key true) := by
  have hfile : ∀ caller, ((w.setFile key db').setBehind key true).files caller =
      if caller = key.1 then db' else w.files caller := fun caller => Function.update_apply ..
  have hbehind : ∀ k, ((w.setFile key db').setBehind key true).behind k = if k = key then true else w.behind k :=
    fun k => Function.update_apply ..
  have hdb := h.files key.1
  have hsame : ∀ k, k ≠ key → SameCollection k.2 (w.files k.1)
      (((w.setFile key db').setBehind key true).files k.1) := by
    intro k hk
    rw [hfile]
    split_ifs with hcaller
    · rw [hcaller]
      exact hcommits.same hdb k.2 fun hname => hk (Prod.ext hcaller hname)
    · exact ⟨rfl, rfl⟩
  constructor
  · intro caller
    rw [hfile]
    split_ifs
    · exact hcommits.wellFormed hdb
    · exact h.files caller
  · intro j hj
    rw [Function.update_apply] at hj ⊢
    split_ifs at hj ⊢
    · exact hwriter
    · exact h.writer j hj
  · intro j
    rw [Function.update_apply]
    split_ifs with hji
    · intro l hl' l' hl''
      have hclean : w.behind key = false := by
        rw [hkey]
        exact h.not_behind hl hwriter fun todo => by rw [hphase]; exact nofun
      rw [Hold.setPhase_key, ← hkey] at hl' ⊢
      rw [hfile, if_pos rfl]
      exact hcommits.update hdb l (h.coherent key hclean l hl') l' hl''
    · by_cases hk : (g j).key = key
      · rw [h.idle_of_ne hl hwriter hji (hk.trans hkey)]
        trivial
      · exact (h.fact j).same (hsame _ hk)
  · intro k hk l hmem
    rw [hbehind] at hk
    split_ifs at hk with hne
    exact (h.coherent k hk l hmem).same (hsame k hne)
  · intro k hk
    rw [hbehind] at hk
    split_ifs at hk with hkk
    · refine ⟨i, todo, ?_⟩
      rw [Function.update_self]
      exact ⟨hkey.symm.trans hkk.symm, rfl⟩
    · obtain ⟨j, todo, hj, htodo⟩ := h.behind k hk
      have hji : j ≠ i := by
        rintro rfl
        rw [hphase] at htodo
        cases htodo
      refine ⟨j, todo, ?_⟩
      rw [Function.update_of_ne hji]
      exact ⟨hj, htodo⟩

/-- An effect leaves the copies as fresh as they were. -/
theorem serve (h : Fresh serde g w) (hl : Locks g w) {e : Eff F} {o : Outcome} {r : e.Answer}
    (hallowed : Allowed (g i) e) (hserve : w.serve c serde i e o = some (r, w'))
    (hnext : Next serde (g i) e r s) : Fresh serde (Function.update g i s) w' := by
  cases e with
  | dropped | last_used | total =>
    obtain ⟨-, rfl⟩ := Prod.mk.inj (Option.some.inj hserve)
    obtain rfl := hnext
    exact h.same
  | never => cases hserve
  | existing_slot | slot | reserved | drop_reservation =>
    obtain ⟨-, rfl⟩ := Prod.mk.inj (Option.some.inj hserve)
    obtain rfl := hnext
    exact h.quiet rfl (fun _ => rfl) rfl rfl rfl rfl
  | slots =>
    obtain rfl := hnext
    cases o with
    | order keys =>
      rw [World.serve] at hserve
      split_ifs at hserve
      obtain ⟨-, rfl⟩ := Prod.mk.inj (Option.some.inj hserve)
      exact h.same
    | _ => cases hserve
  | touch key | unlock_read key | unlock_write key =>
    obtain ⟨-, rfl⟩ := Prod.mk.inj (Option.some.inj hserve)
    obtain rfl := hnext
    exact h.setSlot rfl rfl rfl rfl
  | read key =>
    rw [World.serve] at hserve
    split_ifs at hserve
    obtain ⟨-, rfl⟩ := Prod.mk.inj (Option.some.inj hserve)
    obtain rfl := hnext
    exact h.setSlot rfl rfl rfl rfl
  | lock_writer key =>
    obtain ⟨-, -, -, hphase⟩ := hallowed
    rw [World.serve] at hserve
    split_ifs at hserve
    obtain ⟨-, rfl⟩ := Prod.mk.inj (Option.some.inj hserve)
    obtain rfl := hnext
    refine h.still rfl (fun k => ?_) rfl rfl (fun _ => rfl) (h.fact i) fun todo htodo => htodo
    rw [setSlot_slots]
    split_ifs with hk
    · rw [hk]
    · rfl
  | unlock_writer key =>
    obtain ⟨-, -, -, hsettled⟩ := hallowed
    obtain ⟨-, rfl⟩ := Prod.mk.inj (Option.some.inj hserve)
    obtain rfl := hnext
    refine h.still rfl (fun k => ?_) rfl rfl (fun hne => (hne rfl).elim) trivial fun todo htodo => ?_
    · rw [setSlot_slots]
      split_ifs with hk
      · rw [hk]
      · rfl
    · rw [htodo] at hsettled
      exact hsettled.elim
  | write key =>
    rw [World.serve] at hserve
    split_ifs at hserve
    obtain ⟨-, rfl⟩ := Prod.mk.inj (Option.some.inj hserve)
    obtain ⟨copy, -, -, rfl⟩ := hnext
    exact h.setSlot rfl rfl rfl rfl
  | try_write key =>
    rw [World.serve] at hserve
    split_ifs at hserve
    · obtain ⟨rfl, rfl⟩ := Prod.mk.inj (Option.some.inj hserve)
      obtain ⟨copy, -, rfl⟩ := hnext
      exact h.setSlot rfl rfl rfl rfl
    · obtain ⟨rfl, rfl⟩ := Prod.mk.inj (Option.some.inj hserve)
      obtain rfl := hnext
      exact h.same
  | copy key =>
    obtain ⟨-, rfl⟩ := hallowed
    obtain ⟨rfl, rfl⟩ := Prod.mk.inj (Option.some.inj hserve)
    obtain rfl := hnext
    by_cases hwriter : (g i).writer = true
    · rw [if_pos ⟨hwriter, rfl⟩]
      refine h.setPhase (fun _ => hwriter) (h.fact i).found fun todo htodo => ?_
      rw [htodo]
      rfl
    · rw [if_neg fun hw => hwriter hw.1]
      exact h.quiet rfl (fun _ => rfl) rfl rfl rfl rfl
  | take key =>
    obtain ⟨-, rfl⟩ := Prod.mk.inj (Option.some.inj hserve)
    obtain ⟨gd, -, -, rfl⟩ := hnext
    exact h.take rfl rfl rfl rfl
  | push key rows =>
    obtain ⟨-, hkey, hphase, -⟩ := hallowed
    obtain ⟨-, rfl⟩ := Prod.mk.inj (Option.some.inj hserve)
    obtain ⟨gd, -, -, rfl⟩ := hnext
    exact h.update hl hkey hphase (fun l => rfl) rfl rfl
  | remove key id =>
    obtain ⟨-, hkey, hphase, -⟩ := hallowed
    obtain ⟨-, rfl⟩ := Prod.mk.inj (Option.some.inj hserve)
    obtain ⟨gd, -, -, rfl⟩ := hnext
    exact h.update hl hkey hphase (fun l => rfl) rfl rfl
  | install key l =>
    obtain ⟨-, hkey, -, hphase, -, -⟩ := hallowed
    obtain ⟨-, rfl⟩ := Prod.mk.inj (Option.some.inj hserve)
    obtain rfl := hnext
    exact h.install hkey hphase rfl rfl rfl hl
  | bytes key =>
    obtain ⟨-, rfl⟩ := Prod.mk.inj (Option.some.inj hserve)
    obtain ⟨rfl, -⟩ := hnext
    exact h.same
  | store_bytes key n =>
    obtain ⟨-, rfl⟩ := Prod.mk.inj (Option.some.inj hserve)
    obtain ⟨gd, -, rfl⟩ := hnext
    exact h.setSlot rfl rfl rfl rfl
  | swap_bytes key =>
    obtain ⟨-, rfl⟩ := Prod.mk.inj (Option.some.inj hserve)
    obtain ⟨gd, -, -, rfl⟩ := hnext
    exact h.setSlot rfl rfl rfl rfl
  | try_reserve n =>
    obtain rfl := hnext
    rw [World.serve] at hserve
    split_ifs at hserve
    · obtain ⟨-, rfl⟩ := Prod.mk.inj (Option.some.inj hserve)
      exact h.quiet rfl (fun _ => rfl) rfl rfl rfl rfl
    · obtain ⟨-, rfl⟩ := Prod.mk.inj (Option.some.inj hserve)
      exact h.quiet rfl (fun _ => rfl) rfl rfl rfl rfl
  | release n =>
    obtain ⟨-, rfl⟩ := Prod.mk.inj (Option.some.inj hserve)
    obtain rfl := hnext
    obtain ⟨hkey, hwriter, hphase⟩ := (g i).release_same n
    exact h.quiet rfl (fun _ => rfl) rfl hkey hwriter hphase
  | collection_dim key =>
    obtain ⟨-, rfl⟩ := hallowed
    obtain rfl := hnext
    have hread : w' = w ∧ ∀ d, r = .ok d → d = (w.files (g i).key.1).collection_dim (g i).key.2 := by
      cases o with
      | refused e =>
        obtain ⟨rfl, rfl⟩ := Prod.mk.inj (Option.some.inj hserve)
        exact ⟨rfl, by rintro _ ⟨⟩⟩
      | _ =>
        obtain ⟨rfl, rfl⟩ := Prod.mk.inj (Option.some.inj hserve)
        exact ⟨rfl, fun d hd => (Except.ok.inj hd).symm⟩
    obtain ⟨rfl, hdim⟩ := hread
    refine h.setPhase (fun hne => h.writer i fun hidle => hne ?_) ((h.fact i).begin (h.files _) hdim)
      fun todo htodo => ?_
    · rw [hidle]
      rfl
    · rw [htodo]
      rfl
  | estimate key dim =>
    obtain rfl := hnext
    cases o with
    | refused e =>
      obtain ⟨-, rfl⟩ := Prod.mk.inj (Option.some.inj hserve)
      exact h.same
    | _ =>
      obtain ⟨-, rfl⟩ := Prod.mk.inj (Option.some.inj hserve)
      exact h.same
  | page key last =>
    obtain ⟨-, hloading⟩ := hallowed
    obtain rfl := hnext
    have hread : w' = w ∧ ∀ rows, r = .ok rows → rows = (w.files key.1).page key.2 last := by
      cases o with
      | refused e =>
        obtain ⟨rfl, rfl⟩ := Prod.mk.inj (Option.some.inj hserve)
        exact ⟨rfl, by rintro _ ⟨⟩⟩
      | _ =>
        obtain ⟨rfl, rfl⟩ := Prod.mk.inj (Option.some.inj hserve)
        exact ⟨rfl, fun rows hrows => (Except.ok.inj hrows).symm⟩
    obtain ⟨rfl, hrows⟩ := hread
    refine h.setPhase (fun hne => h.writer i fun hidle => hne ?_) ((h.fact i).page (h.files _) ?_)
      fun todo htodo => ?_
    · rw [hidle]
      rfl
    · rintro rows last' l hr hphase
      obtain ⟨rfl, rfl⟩ := hloading last' l hphase
      exact hrows rows hr
    · rw [htodo]
      rfl
  | upsert key dim model rows =>
    obtain ⟨-, hkey, hwriter, hphase, hrows⟩ := hallowed
    obtain rfl := hnext
    rcases serve_upsert hserve with ⟨e, rfl, rfl⟩ | ⟨db, hok, rfl, rfl⟩
    · exact h.quiet rfl (fun _ => rfl) rfl rfl rfl rfl
    · exact h.commit hl hkey hwriter hphase (commits_upsert hok hrows)
  | delete key id =>
    obtain ⟨-, hkey, hwriter, hphase⟩ := hallowed
    obtain rfl := hnext
    rcases serve_delete hserve with ⟨e, rfl, rfl⟩ | ⟨rfl, rfl⟩
    · exact h.quiet rfl (fun _ => rfl) rfl rfl rfl rfl
    · exact h.commit hl hkey hwriter hphase (commits_delete _ _ _)
  | swap_reembedded key model =>
    obtain ⟨-, hkey, hwriter, hphase⟩ := hallowed
    obtain rfl := hnext
    rcases serve_swap hserve with ⟨hr, rfl⟩ | ⟨db, n, hdone, rfl, rfl⟩
    · refine h.quiet rfl (fun _ => rfl) rfl rfl rfl ?_
      rcases r with e | n | n
      · rfl
      · exact (hr n rfl).elim
      · rfl
    · exact h.commit hl hkey hwriter hphase (commits_swap hdone)

theorem begin (h : Fresh serde g w) (i : Nat) : Fresh serde g (w.begin i) :=
  ⟨h.files, h.writer, h.fact, h.coherent, h.behind⟩

/-- Nothing that moves by itself writes a row. -/
theorem env (h : Fresh serde g w) (move : EnvMove F) : Fresh serde g (move.apply w) := by
  cases move with
  | tick now => exact ⟨h.files, h.writer, h.fact, h.coherent, h.behind⟩
  | shadow caller rows =>
    have hfile : ∀ name, ((EnvMove.shadow caller rows).apply w).files name =
        if name = caller then { w.files caller with vectors_reembed := rows } else w.files name :=
      fun name => Function.update_apply ..
    have hsame : ∀ k : Key, SameCollection k.2 (w.files k.1)
        (((EnvMove.shadow caller rows).apply w).files k.1) := by
      intro k
      rw [hfile]
      split_ifs with hcaller
      · rw [hcaller]
        exact ⟨rfl, rfl⟩
      · exact ⟨rfl, rfl⟩
    refine ⟨fun name => ?_, h.writer, fun j => (h.fact j).same (hsame _),
      fun k hk l hl => (h.coherent k hk l hl).same (hsame k), h.behind⟩
    rw [hfile]
    split_ifs
    · exact (h.files caller).congr rfl
    · exact h.files name

end Fresh

/-! ## Runs -/

/-- What the operations hold is what the world says, and the copies are fresh. -/
structure Kept (serde : Serde) (g : Nat → Hold F) (w : World F) : Prop where
  locks : Locks g w
  fresh : Fresh serde g w

theorem Locks.env (h : Locks g w) (move : EnvMove F) : Locks g (move.apply w) := by
  cases move with
  | tick | shadow => exact ⟨h.writer, h.guard, h.guarded, h.free, h.seen, h.unknown, h.reservation, h.fresh⟩

theorem Kept.begin (h : Kept serde g w) (i : Nat) : Kept serde g (w.begin i) :=
  ⟨h.locks.begin i, h.fresh.begin i⟩

theorem Kept.env (h : Kept serde g w) (move : EnvMove F) : Kept serde g (move.apply w) :=
  ⟨h.locks.env move, h.fresh.env move⟩

theorem Kept.serve (h : Kept serde g w) (hi : i ∈ w.begun) {e : Eff F} {o : Outcome} {r : e.Answer}
    (hallowed : Allowed (g i) e) (hserve : w.serve c serde i e o = some (r, w')) :
    ∃ s, Next serde (g i) e r s ∧ Kept serde (Function.update g i s) w' := by
  obtain ⟨s, hnext, hlocks⟩ := h.locks.serve hi (h.fresh.fact i).empty hallowed hserve
  exact ⟨s, hnext, hlocks, h.fresh.serve h.locks hallowed hserve hnext⟩

variable {S : Type} [LinearOrder S] {E : Env F S} {files : String → { db : Db F // db.WellFormed }}
  {spawn : Nat → Op F × Nat} {trace : List (OpLabel F)} {p : Ops F}

theorem kept_start (E : Env F S) (files : String → { db : Db F // db.WellFormed })
    (spawn : Nat → Op F × Nat) :
    Kept serde (fun i => .start (spawn i).1.key) (Ops.start E files spawn).world where
  locks := {
    writer := nofun
    guard := nofun
    guarded := nofun
    free := fun _ _ => rfl
    seen := nofun
    unknown := fun _ _ => rfl
    reservation := fun _ => rfl
    fresh := fun _ _ => rfl }
  fresh := {
    files := fun caller => (files caller).2
    writer := fun _ hne => (hne rfl).elim
    fact := fun _ => trivial
    coherent := fun _ _ => nofun
    behind := nofun }

/-- An operation that is not done may do what comes next. -/
theorem allowed_of_obeys {s : Hold F} {task : Act F Unit} (h : Obeys (protocol serde) (fun s' _ => s'.Idle) s task) :
    (∃ a, task = .done a ∧ s.Idle) ∨ ∃ e k, task = .call e k ∧ Allowed s e := by
  cases task with
  | done a => exact .inl ⟨a, rfl, h⟩
  | call e k => exact .inr ⟨e, k, rfl, h.1⟩

/-- Whatever the operations do, and in whatever order: a copy has the dimension of its collection, and for
    each id the vector and the metadata of the file, unless a writer of the collection has committed and
    has still to update the copy. That writer has the writer lock and is not done. -/
theorem cache_coherent (hrun : Run (OpStep E) (.start E files spawn) trace p) :
    (∀ key l, (p.world.slots key).state = some l → p.world.behind key = false →
      Coherent E.serde (p.world.files key.1) key.2 l) ∧
    ∀ key, p.world.behind key = true →
      ∃ i e k, (p.world.slots key).writer = some i ∧ p.tasks i = .call e k := by
  have hinv : PoolInv (protocol E.serde) (fun _ s _ => s.Idle)
      (fun g (_ : List (OpLabel F)) w => Kept E.serde g w) trace p := by
    refine hrun.invariant ?_ fun trace p l p' hp hstep => ?_
    · exact ⟨_, kept_start E files spawn, fun i => obeys_task E (spawn i).2 (spawn i).1⟩
    · refine hp.step ?_ ?_ hstep
      · rintro g trace w i e r w' h hallowed ⟨o, hserve⟩
        exact (h.begin i).serve (Finset.mem_insert_self _ _) hallowed hserve
      · rintro g trace w l w' h rfl
        exact h.env l
  obtain ⟨g, ⟨hlocks, hfresh⟩, hobeys⟩ := hinv
  refine ⟨fun key l hl hbehind => ?_, fun key hbehind => ?_⟩
  · exact (hfresh.coherent key hbehind l hl).coherent (hfresh.files key.1)
  · obtain ⟨i, todo, rfl, hphase⟩ := hfresh.behind key hbehind
    have hwriter := hfresh.writer i (by rw [hphase]; exact nofun)
    rcases allowed_of_obeys (hobeys i) with ⟨a, -, hidle⟩ | ⟨e, k, htask, -⟩
    · rw [hidle.writer] at hwriter
      cases hwriter
    · exact ⟨i, e, k, hlocks.writer i hwriter, htask⟩

/-- A cache with room for one small collection. -/
def smallCache : Env Nat Nat where
  c := { max_bytes := 1000, idle_ms := 60000 }
  serde := Serde.compact
  score q v := (List.zipWith (fun a b => a * b) q v).sum

def milk : UpsertRow Nat where
  id := "a"
  text := "milk"
  vector := [1, 0]
  metadata_json := "\x7b\x7d"

theorem milk_checked : ∀ r ∈ [milk], r.vector.length = 2 := by
  rintro r hr
  obtain rfl := List.mem_singleton.mp hr
  rfl

/-- Operation 0 writes a row, and the others search. -/
def writeAndSearch (i : Nat) : Op Nat × Nat :=
  if i = 0 then (.upsert ("caller", "notes") 2 none [milk] milk_checked, 5)
  else (.query ("caller", "notes") { q := [1, 0], top_k := 1, filter := none }, 5)

def emptyFiles (_ : String) : { db : Db Nat // db.WellFormed } :=
  ⟨.empty, Table.unique_empty _, nofun⟩

def runOps (spawn : Nat → Op Nat × Nat) (moves : List (Nat × Outcome)) : Option (List (OpLabel Nat) × Ops Nat) :=
  runOf (answerOp smallCache.c smallCache.serde) (.start smallCache emptyFiles spawn) moves

/-- The row is written, and then the collection is loaded. -/
def loadWritten : List (Nat × Outcome) :=
  List.replicate 8 (0, .ok) ++ List.replicate 26 (1, .ok)

theorem run_runOps {spawn : Nat → Op Nat × Nat} {moves : List (Nat × Outcome)}
    {r : List (OpLabel Nat) × Ops Nat} (h : runOps spawn moves = some r) :
    Run (OpStep smallCache) (.start smallCache emptyFiles spawn) r.1 r.2 :=
  run_runOf (fun _ _ _ _ h => opStep_answerOp h) h

theorem cache_coherent_sample : ∃ r, runOps writeAndSearch loadWritten = some r ∧
    (r.2.world.slots ("caller", "notes")).state.isSome = true ∧
    ((∀ key l, (r.2.world.slots key).state = some l → r.2.world.behind key = false →
        Coherent smallCache.serde (r.2.world.files key.1) key.2 l) ∧
      ∀ key, r.2.world.behind key = true →
        ∃ i e k, (r.2.world.slots key).writer = some i ∧ r.2.tasks i = .call e k) := by
  have hsome : ((runOps writeAndSearch loadWritten).any fun r =>
      (r.2.world.slots ("caller", "notes")).state.isSome) = true := by
    decide
  obtain ⟨r, hr, hstate⟩ := (Option.any_eq_true _ _).mp hsome
  exact ⟨r, hr, hstate, cache_coherent (run_runOps hr)⟩

end VecCache

end VectorDb
